import Youmenu.Eventpack.Bson

/-!
# The session table: `session.c`

What the functions of the session module look for in the list of sessions, and
when a new session is refused. Locks and reference counts come with the two models
that use this one: one call after the other in `References`, and threads in
`Threads`.

## Main definitions

* `Session` — `session_t`.
* `SessionNode` — an element of `session_list`, at its address.
* `sessionConflict` — the checks of `session_add`.
* `Distinct` — the table that these checks leave.
-/

namespace Youmenu.Server

open Eventpack

/-- A string literal of the source. -/
def lit (s : String) : CString := CString.read (s.toList.map fun c => UInt8.ofNat c.toNat)

inductive SessionType where
  | fd
  | token
deriving DecidableEq

/-- `session_t` without the times, which are written and never read. -/
structure Session where
  aType : ℤ
  uid : CString
  admin : ℤ
  sType : SessionType
  token : CString
  fd : ℤ
deriving DecidableEq

/-- `session_list_t`; the reference count is kept apart, by address. -/
structure SessionNode where
  addr : ℕ
  session : Session

namespace SessionNode

def hasFd (fd : ℤ) (n : SessionNode) : Bool := n.session.fd = fd

def hasUid (uid : CString) (type : SessionType) (n : SessionNode) : Bool :=
  n.session.sType = type && n.session.uid = uid

def hasToken (token : CString) (n : SessionNode) : Bool :=
  n.session.sType = .token && n.session.token = token

end SessionNode

/-- The element stands in the way of a new session. -/
def sessionConflict (s : Session) (n : SessionNode) : Bool :=
  match s.sType with
  | .fd => n.session.fd = s.fd || (n.session.sType = .fd && n.session.uid = s.uid)
  | .token => n.session.sType = .token && n.session.token = s.token

/-- What `session_add_fd` makes of the session before it is added. -/
def sessionForFd (s : Session) : Session := { s with sType := .fd, token := lit "" }

/-- What `session_add_token` makes of the session before it is added. -/
def sessionForToken (s : Session) : Session := { s with sType := .token, fd := -1 }

/-! ## Distinct connections -/

/-- No two sessions are for the same connection. -/
def Distinct (list : List SessionNode) : Prop :=
  list.Pairwise fun n n' => n.session.fd = n'.session.fd → n.session.fd = -1

theorem Distinct.filter {list : List SessionNode} (h : Distinct list) (p : SessionNode → Bool) :
    Distinct (list.filter p) :=
  List.Pairwise.filter p h

/-- A session that is added comes behind the others. -/
theorem pairwise_add {R : SessionNode → SessionNode → Prop} {list : List SessionNode}
    (h : list.Pairwise R) {n : SessionNode} (hn : ∀ n' ∈ list, R n' n) :
    (list ++ [n]).Pairwise R := by
  refine List.pairwise_append.mpr ⟨h, List.pairwise_singleton _ _, fun n' hn' n'' hn'' => ?_⟩
  rw [List.mem_singleton.mp hn'']
  exact hn n' hn'

theorem Distinct.add {list : List SessionNode} (h : Distinct list) {n : SessionNode}
    (hadd : n.session.fd = -1 ∨
      n.session.sType = .fd ∧ ∀ n' ∈ list, sessionConflict n.session n' = false) :
    Distinct (list ++ [n]) := by
  refine pairwise_add h fun n' hn' heq => ?_
  rcases hadd with hfd | ⟨htype, hconflict⟩
  · rw [heq, hfd]
  · have hne := hconflict n' hn'
    simp [sessionConflict, htype, heq] at hne

/-- At most one session is for a given connection. -/
theorem Distinct.filter_hasFd {list : List SessionNode} (h : Distinct list) {fd : ℤ}
    (hfd : fd ≠ -1) :
    list.filter (SessionNode.hasFd fd) = [] ∨ ∃ n ∈ list, n.session.fd = fd ∧
      list.filter (SessionNode.hasFd fd) = [n] := by
  have hdistinct := h.filter (SessionNode.hasFd fd)
  have hmem : ∀ n ∈ list.filter (SessionNode.hasFd fd), n ∈ list ∧ n.session.fd = fd := by
    intro n hn
    simpa [SessionNode.hasFd] using hn
  generalize list.filter (SessionNode.hasFd fd) = found at hdistinct hmem
  match found with
  | [] => exact .inl rfl
  | [n] => exact .inr ⟨n, (hmem n (by simp)).1, (hmem n (by simp)).2, rfl⟩
  | n :: n' :: rest =>
    have hn := (hmem n (by simp)).2
    have hn' := (hmem n' (by simp)).2
    have hsame := List.rel_of_pairwise_cons hdistinct List.mem_cons_self (hn.trans hn'.symm)
    exact (hfd (hn.symm.trans hsame)).elim

end Youmenu.Server
