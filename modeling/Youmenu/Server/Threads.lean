import Youmenu.Lib.Transition
import Youmenu.Server.Session
import Mathlib.Logic.Function.Basic

/-!
# The session module among threads: `session.c` and `pref.c`

Any number of threads call the functions of the session module. A step is the
lookup in the list together with `pref_get`, taking or giving back `session_lock`,
`list_del`, the end of the wait in `pref_release`, or `session_dref` up to its
unlock.

## Main definitions

* `Phase` — where a thread stands in a call.
* `Threads`, `Threads.step` — the system.
* `Deadlocked` — a deletion waits for a reference whose owner waits for the lock.
-/

namespace Youmenu.Server

open Eventpack Transition

/-! ## The source -/

/-- What `session_del_fd` and `session_del_token` look for. -/
inductive Target where
  | fd (fd : ℤ)
  | token (uid : CString)

def Target.hit : Target → SessionNode → Bool
  | .fd x, n => n.hasFd x
  | .token uid, n => n.hasUid uid .token

inductive Phase where
  | idle
  /-- `session_ref_fd` or `session_ref_uid` has its references and wants the lock. -/
  | refLock (refs : List ℕ)
  /-- `session_ref_token` has found the session and wants the lock. -/
  | tokenLock (addr : ℕ)
  /-- It has the lock and has not called `pref_get` yet. -/
  | tokenGet (addr : ℕ)
  /-- Between `session_ref_*` and `session_dref`. -/
  | working (refs : List ℕ)
  /-- The next step gives back the lock. -/
  | unlock
  | delLock (target : Target)
  /-- In the loop of `session_del_*`. -/
  | deleting (target : Target)
  /-- In `pref_release`. -/
  | releasing (target : Target) (addr : ℕ)
  | addLock (s : Session)
  | adding (s : Session)

/-- The thread is blocked until it gets `session_lock`. -/
def Phase.WantsLock : Phase → Prop
  | .refLock _ | .tokenLock _ | .delLock _ | .addLock _ => True
  | _ => False

/-- The sessions on which the thread has a reference. -/
def Phase.refs : Phase → List ℕ
  | .refLock refs | .working refs => refs
  | _ => []

structure Threads where
  sessionList : List SessionNode
  refcount : ℕ → ℤ
  next : ℕ
  sessionLock : Option ℕ
  phase : ℕ → Phase

namespace Threads

def setPhase (s : Threads) (t : ℕ) (p : Phase) : Threads :=
  { s with phase := Function.update s.phase t p }

def prefGet (s : Threads) (addr : ℕ) : Threads :=
  { s with refcount := Function.update s.refcount addr (s.refcount addr + 1) }

def prefPut (s : Threads) (addr : ℕ) : Threads :=
  { s with refcount := Function.update s.refcount addr (s.refcount addr - 1) }

/-- `none` while another thread has the lock. -/
def acquire (s : Threads) (t : ℕ) (p : Phase) : Option Threads :=
  match s.sessionLock with
  | none => some ({ s with sessionLock := some t }.setPhase t p)
  | some _ => none

/-- `session_dref` only finds sessions that are still in the list. -/
def sessionDref (s : Threads) (session : ℕ) : Threads :=
  if s.sessionList.any (·.addr = session) then s.prefPut session else s

def sessionAdd (s : Threads) (x : Session) : Threads :=
  if s.sessionList.any (sessionConflict x) then s
  else { s with sessionList := s.sessionList ++ [⟨s.next, x⟩]
                refcount := Function.update s.refcount s.next 0
                next := s.next + 1 }

/-- The calls of the session module. -/
inductive Call where
  | refFd (fd : ℤ)
  | refUid (uid : CString) (type : SessionType)
  | refToken (token : CString)
  | delFd (fd : ℤ)
  | delToken (uid : CString)
  | addFd (x : Session)
  | addToken (x : Session)

/-- The first step of a call: the lookups need no lock. -/
def start (s : Threads) (t : ℕ) : Call → Threads
  | .refFd fd =>
    match s.sessionList.filter (SessionNode.hasFd fd) with
    | [] => s
    | n :: found =>
      ((n :: found).foldl (fun s n => s.prefGet n.addr) s).setPhase t
        (.refLock ((n :: found).map (·.addr)))
  | .refUid uid type =>
    match s.sessionList.find? (SessionNode.hasUid uid type) with
    | none => s
    | some n => (s.prefGet n.addr).setPhase t (.refLock [n.addr])
  | .refToken token =>
    match s.sessionList.find? (SessionNode.hasToken token) with
    | none => s
    | some n => s.setPhase t (.tokenLock n.addr)
  | .delFd fd => s.setPhase t (.delLock (.fd fd))
  | .delToken uid => s.setPhase t (.delLock (.token uid))
  | .addFd x => s.setPhase t (.addLock (sessionForFd x))
  | .addToken x => s.setPhase t (.addLock (sessionForToken x))

/-- The next step of a thread inside a call. The list only changes under the lock, so
the next hit of the deletion loop is the first one that is left. -/
def run (s : Threads) (t : ℕ) : Option Threads :=
  match s.phase t with
  | .idle => none
  | .refLock refs => s.acquire t (.working refs)
  | .tokenLock addr => s.acquire t (.tokenGet addr)
  | .tokenGet addr => some ((s.prefGet addr).setPhase t (.working [addr]))
  | .working refs => some ((refs.getLast?.elim s s.sessionDref).setPhase t .unlock)
  | .unlock => some ({ s with sessionLock := none }.setPhase t .idle)
  | .delLock target => s.acquire t (.deleting target)
  | .deleting target =>
    match s.sessionList.find? target.hit with
    | none => some (s.setPhase t .unlock)
    | some n =>
      some ({ s with sessionList := s.sessionList.filter (·.addr ≠ n.addr) }.setPhase t
        (.releasing target n.addr))
  | .releasing target addr =>
    if s.refcount addr = 0 then some (s.setPhase t (.deleting target)) else none
  | .addLock x => s.acquire t (.adding x)
  | .adding x => some ((s.sessionAdd x).setPhase t .unlock)

inductive Event where
  | start (t : ℕ) (c : Call)
  | run (t : ℕ)

def step (s : Threads) : Event → Option Threads
  | .start t c =>
    match s.phase t with
    | .idle => some (s.start t c)
    | _ => none
  | .run t => s.run t

/-- After `session_init`. -/
def init : Threads := ⟨[], fun _ => 0, 0, none, fun _ => .idle⟩

end Threads

/-! ## Deadlock -/

/-- A thread holds the lock and waits in `pref_release` for a reference that belongs
to a thread that wants the lock. -/
def Deadlocked (s : Threads) : Prop :=
  ∃ t u target addr, s.sessionLock = some t ∧ s.phase t = .releasing target addr ∧
    s.refcount addr ≠ 0 ∧ addr ∈ (s.phase u).refs ∧ (s.phase u).WantsLock

/-- `list_del` is only done to a session that no thread has looked up in
`session_ref_fd` or `session_ref_uid` without having the lock yet. -/
def NotLookedUp (s : Threads) : Threads.Event → Prop
  | .start _ _ => True
  | .run t => ∀ target, s.phase t = .deleting target → ∀ n, s.sessionList.find? target.hit = some n →
      ∀ u refs, s.phase u = .refLock refs → n.addr ∉ refs

/-- A session that is being released is out of the list, and out of reach of the
threads that are still to get the lock. -/
structure Released (s : Threads) (addr : ℕ) : Prop where
  old : addr < s.next
  unlinked : ∀ n ∈ s.sessionList, n.addr ≠ addr
  apart : ∀ u refs, s.phase u = .refLock refs → addr ∉ refs

structure Orderly (s : Threads) : Prop where
  old : ∀ n ∈ s.sessionList, n.addr < s.next
  released : ∀ t target addr, s.phase t = .releasing target addr → Released s addr

theorem Orderly.init : Orderly .init := ⟨by simp [Threads.init], by simp [Threads.init]⟩

theorem Orderly.not_deadlocked {s : Threads} (h : Orderly s) : ¬ Deadlocked s := by
  rintro ⟨t, u, target, addr, -, hphase, -, hmem, hwants⟩
  have hreleased := h.released t target addr hphase
  cases hu : s.phase u with
  | refLock refs =>
    rw [hu] at hmem
    exact hreleased.apart u refs hu hmem
  | working refs => simp [hu, Phase.WantsLock] at hwants
  | _ => simp [hu, Phase.refs] at hmem

section Steps

variable {s : Threads}

/-- Neither the counts nor the lock matter. -/
theorem Orderly.recount (h : Orderly s) (refcount : ℕ → ℤ) (sessionLock : Option ℕ) :
    Orderly { s with refcount := refcount, sessionLock := sessionLock } :=
  ⟨h.old, fun t target addr ht =>
    have hr := h.released t target addr ht
    ⟨hr.old, hr.unlinked, hr.apart⟩⟩

/-- A thread goes on to a phase that is safe where it stands. -/
theorem Orderly.setPhase (h : Orderly s) (t : ℕ) {p : Phase}
    (hreleasing : ∀ target addr, p = .releasing target addr → Released s addr)
    (hrefs : ∀ refs, p = .refLock refs → ∀ addr ∈ refs, ∃ n ∈ s.sessionList, n.addr = addr) :
    Orderly (s.setPhase t p) := by
  have hreleased : ∀ u target addr, (s.setPhase t p).phase u = .releasing target addr →
      Released s addr := by
    intro u target addr hu
    by_cases hut : u = t
    · subst hut
      exact hreleasing target addr (by simpa [Threads.setPhase] using hu)
    · exact h.released u target addr (by simpa [Threads.setPhase, hut] using hu)
  refine ⟨h.old, fun u target addr hu => ?_⟩
  have hr := hreleased u target addr hu
  refine ⟨hr.old, hr.unlinked, fun v refs hv hmem => ?_⟩
  by_cases hvt : v = t
  · subst hvt
    obtain ⟨n, hn, rfl⟩ := hrefs refs (by simpa [Threads.setPhase] using hv) addr hmem
    exact hr.unlinked n hn rfl
  · exact hr.apart v refs (by simpa [Threads.setPhase, hvt] using hv) hmem

theorem Threads.foldl_prefGet (found : List SessionNode) (s : Threads) :
    ∃ refcount, found.foldl (fun s n => s.prefGet n.addr) s = { s with refcount := refcount } := by
  induction found generalizing s with
  | nil => exact ⟨s.refcount, rfl⟩
  | cons n found ih =>
    obtain ⟨refcount, heq⟩ := ih (s.prefGet n.addr)
    exact ⟨refcount, by rw [List.foldl_cons, heq]; rfl⟩

theorem Orderly.start (h : Orderly s) (t : ℕ) (c : Threads.Call) : Orderly (s.start t c) := by
  cases c with
  | refFd fd =>
    simp only [Threads.start]
    split
    · exact h
    · next n found hfound =>
      obtain ⟨refcount, heq⟩ := Threads.foldl_prefGet (n :: found) s
      rw [heq]
      refine (h.recount refcount _).setPhase t (by simp) ?_
      rintro refs ⟨⟩ addr haddr
      obtain ⟨n', hn', rfl⟩ := List.mem_map.mp haddr
      rw [← hfound] at hn'
      exact ⟨n', (List.mem_filter.mp hn').1, rfl⟩
  | refUid uid type =>
    simp only [Threads.start]
    split
    · exact h
    · next n hn =>
      refine (h.recount _ _).setPhase t (by simp) ?_
      rintro refs ⟨⟩ addr haddr
      exact ⟨n, List.mem_of_find?_eq_some hn, (List.mem_singleton.mp haddr).symm⟩
  | refToken token =>
    simp only [Threads.start]
    split
    · exact h
    · exact h.setPhase t (by simp) (by simp)
  | delFd fd => exact h.setPhase t (by simp) (by simp)
  | delToken uid => exact h.setPhase t (by simp) (by simp)
  | addFd x => exact h.setPhase t (by simp) (by simp)
  | addToken x => exact h.setPhase t (by simp) (by simp)

theorem Orderly.acquire (h : Orderly s) {t : ℕ} {p : Phase} {s' : Threads}
    (hreleasing : ∀ target addr, p ≠ .releasing target addr) (hrefs : ∀ refs, p ≠ .refLock refs)
    (hstep : s.acquire t p = some s') : Orderly s' := by
  unfold Threads.acquire at hstep
  split at hstep
  · obtain rfl := Option.some.inj hstep
    exact (h.recount _ _).setPhase t (fun _ _ hp => (hreleasing _ _ hp).elim)
      (fun _ hp => (hrefs _ hp).elim)
  · cases hstep

theorem Orderly.sessionDref (h : Orderly s) (session : ℕ) : Orderly (s.sessionDref session) := by
  unfold Threads.sessionDref
  split_ifs
  · exact h.recount _ _
  · exact h

theorem Orderly.sessionAdd (h : Orderly s) (x : Session) : Orderly (s.sessionAdd x) := by
  unfold Threads.sessionAdd
  split_ifs
  · exact h
  · refine ⟨?_, fun t target addr ht => ?_⟩
    · simp only [List.mem_append, List.mem_singleton]
      rintro n (hn | rfl)
      · exact Nat.lt_succ_of_lt (h.old n hn)
      · exact Nat.lt_succ_self _
    · have hr := h.released t target addr ht
      refine ⟨Nat.lt_succ_of_lt hr.old, ?_, hr.apart⟩
      simp only [List.mem_append, List.mem_singleton]
      rintro n (hn | rfl)
      · exact hr.unlinked n hn
      · exact (ne_of_lt hr.old).symm

/-- `list_del`: the condition on the step is what keeps the invariant. -/
theorem Orderly.listDel (h : Orderly s) (t : ℕ) {target : Target} {n : SessionNode}
    (hn : n ∈ s.sessionList) (hfree : ∀ u refs, s.phase u = .refLock refs → n.addr ∉ refs) :
    Orderly ({ s with sessionList := s.sessionList.filter (·.addr ≠ n.addr) }.setPhase t
      (.releasing target n.addr)) := by
  have hshort : Orderly { s with sessionList := s.sessionList.filter (·.addr ≠ n.addr) } := by
    refine ⟨fun n' hn' => h.old n' (List.mem_filter.mp hn').1, fun t target addr ht => ?_⟩
    have hr := h.released t target addr ht
    exact ⟨hr.old, fun n' hn' => hr.unlinked n' (List.mem_filter.mp hn').1, hr.apart⟩
  refine hshort.setPhase t ?_ (by simp)
  rintro target' addr ⟨⟩
  exact ⟨h.old n hn, fun n' hn' => by simpa using (List.mem_filter.mp hn').2, hfree⟩

theorem Orderly.run (h : Orderly s) {t : ℕ} {s' : Threads} (hok : NotLookedUp s (.run t))
    (hstep : s.run t = some s') : Orderly s' := by
  unfold Threads.run at hstep
  split at hstep
  · cases hstep
  · exact h.acquire (by simp) (by simp) hstep
  · exact h.acquire (by simp) (by simp) hstep
  · obtain rfl := Option.some.inj hstep
    exact (h.recount _ _).setPhase t (by simp) (by simp)
  · next refs hphase =>
    obtain rfl := Option.some.inj hstep
    cases refs.getLast? with
    | none => exact h.setPhase t (by simp) (by simp)
    | some session => exact (h.sessionDref session).setPhase t (by simp) (by simp)
  · obtain rfl := Option.some.inj hstep
    exact (h.recount _ _).setPhase t (by simp) (by simp)
  · exact h.acquire (by simp) (by simp) hstep
  · next target hphase =>
    split at hstep
    · obtain rfl := Option.some.inj hstep
      exact h.setPhase t (by simp) (by simp)
    · next n hn =>
      obtain rfl := Option.some.inj hstep
      exact h.listDel t (List.mem_of_find?_eq_some hn) (hok target hphase n hn)
  · split_ifs at hstep
    obtain rfl := Option.some.inj hstep
    exact h.setPhase t (by simp) (by simp)
  · exact h.acquire (by simp) (by simp) hstep
  · obtain rfl := Option.some.inj hstep
    exact (h.sessionAdd _).setPhase t (by simp) (by simp)

theorem Orderly.step (h : Orderly s) {e : Threads.Event} {s' : Threads} (hok : NotLookedUp s e)
    (hstep : s.step e = some s') : Orderly s' := by
  cases e with
  | start t c =>
    simp only [Threads.step] at hstep
    split at hstep
    · obtain rfl := Option.some.inj hstep
      exact h.start t c
    · cases hstep
  | run t => exact h.run hok hstep

end Steps

/-- If no session is unlinked while a thread that has looked it up still waits for
the lock, no run reaches a deadlock. -/
theorem session_no_deadlock {s : Threads} (h : Reaches Threads.step NotLookedUp .init s) :
    ¬ Deadlocked s := by
  have horderly : Orderly s :=
    h.invariant (P := Orderly) .init fun hs hok hstep => hs.step hok hstep
  exact horderly.not_deadlocked

/-- Thread 0 logs `ann` in on connection 5, thread 1 looks the session up and gives
it back, and thread 2 deletes it. -/
theorem session_no_deadlock_closing :
    ∃ s, Reaches Threads.step NotLookedUp .init s ∧ s.sessionLock = some 2 ∧
      s.phase 2 = .releasing (.fd 5) 0 ∧ ¬ Deadlocked s := by
  obtain ⟨s, hrun, hlock, hphase⟩ : ∃ s, Reaches Threads.step NotLookedUp .init s ∧
      s.sessionLock = some 2 ∧ s.phase 2 = .releasing (.fd 5) 0 := by
    refine ⟨_, .head (e := .start 0 (.addFd ⟨1, lit "ann", 0, .fd, lit "", 5⟩)) trivial rfl <|
      .head (e := .run 0) nofun rfl <| .head (e := .run 0) nofun rfl <|
      .head (e := .run 0) nofun rfl <| .head (e := .start 1 (.refFd 5)) trivial rfl <|
      .head (e := .run 1) nofun rfl <| .head (e := .run 1) nofun rfl <|
      .head (e := .run 1) nofun rfl <| .head (e := .start 2 (.delFd 5)) trivial rfl <|
      .head (e := .run 2) nofun rfl <| .head (e := .run 2) ?_ rfl .refl, ?_, ?_⟩
    · rintro target - n - (_ | _ | _ | u) refs ⟨⟩
    · rfl
    · rfl
  exact ⟨s, hrun, hlock, hphase, session_no_deadlock hrun⟩

/-- Thread 1 has looked up the session of connection 5 when thread 2 takes the lock
to delete it. -/
theorem session_deadlock :
    ∃ s, Reaches Threads.step anyStep .init s ∧ Deadlocked s := by
  refine ⟨_, reaches_of_exec [.start 0 (.addFd ⟨1, lit "ann", 0, .fd, lit "", 5⟩), .run 0, .run 0,
    .run 0, .start 1 (.refFd 5), .start 2 (.delFd 5), .run 2, .run 2] rfl, ?_⟩
  exact ⟨2, 1, .fd 5, 0, rfl, rfl, by decide, by decide, trivial⟩

end Youmenu.Server
