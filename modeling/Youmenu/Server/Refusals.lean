import Youmenu.Server.References

/-!
# How a refusal is reported

The handlers that ask for a session or a role answer with an element `result`, which the
client reads as a value of the enumeration that belongs to its own function. The four
enumerations number the same outcome differently, and some handlers answer with the
value of another one.

## Main definitions

* `Kind.guard` — the roles that a handler allows, and what the client reads as a refusal.
* `Refused` — the requests without a session of an allowed role.
* `RefusalReported` — what is asked of the handler on such a request.
-/

namespace Youmenu.Server

open Eventpack Program

inductive SeatResult where
  | ok
  | noPermission
  | illegalParameter
  | serviceUnavailable
  | noResponse
deriving DecidableEq

/-- The roles that a handler allows, with `no_permission` as the enumeration of the
matching client function has it. Any session will do for the list of the seats. -/
def Kind.guard : Kind → Option ((ℤ → Bool) × ℤ)
  | .accountList => some (fun t => t = accountAdmin, AccountResult.noPermission.ctorIdx)
  | .dishFetch | .dishBook | .dishCancel | .dishList =>
    some (fun t => t = accountMenu || t = accountAdmin, DishResult.noPermission.ctorIdx)
  | .seatList => some (fun _ => true, SeatResult.noPermission.ctorIdx)
  | .cookAccept =>
    some (fun t => t = accountCook || t = accountAdmin, CookResult.noPermission.ctorIdx)
  | _ => none

/-- The connection has no session, or one of a role that is not allowed. -/
def Refused (m : SessionMod) (fd : ℕ) (allowed : ℤ → Bool) : Prop :=
  ∀ n ∈ m.sessionList, n.session.fd = fd → allowed n.session.aType = false

variable {δ : Type}

/-- The handler returns, the database and the sessions are as they were, and the client
reads a refusal. -/
def RefusalReported (db : Db δ) (s : SessionMod × δ) (r : Request) (code : ℤ) : Prop :=
  ∃ reply m' d', r.handler.exec (interp db) s = some (reply, m', d') ∧ d' = s.2 ∧
    m'.sessionList = s.1.sessionList ∧ replyResult reply = some code

instance (m : SessionMod) (fd : ℕ) : Decidable (HasSession m fd) :=
  inferInstanceAs (Decidable (∃ n ∈ m.sessionList, n.session.fd = fd))

/-- The handlers of the dishes, and that of the cook if there is a session. -/
def Reports (m : SessionMod) (r : Request) : Prop :=
  r.kind = .dishFetch ∨ r.kind = .dishBook ∨ r.kind = .dishCancel ∨ r.kind = .dishList ∨
    r.kind = .cookAccept ∧ HasSession m r.fd

section Replies

variable {db : Db δ} {m : SessionMod} {d : δ} {fd : ℕ}

/-- The handler leaves everything as it was and answers with one element. -/
def Answers (m : SessionMod) (d : δ) (op : PackOp) (reply : Reply) (s : SessionMod × δ) : Prop :=
  s = (m, d) ∧ reply = [op]

theorem wp_checkPermission_refused (hm : Settled (fun _ _ _ => True) m) {allowed : ℤ → Bool}
    (hrefused : Refused m fd allowed) {expired denied op : PackOp}
    {k : Option Reply → Handler Reply} (hk : ∀ reply, k (some reply) = ret reply)
    (hexpired : ¬ HasSession m fd → op = expired) (hdenied : HasSession m fd → op = denied) :
    (checkPermission fd allowed expired denied >>= k).wp (interp db) (Answers m d op) (m, d) := by
  rw [wp_bind]
  refine wp_refFd hm (fun hnone => ?_) fun n hn hfd => ?_
  · show (k (some [expired])).wp (interp db) (Answers m d op) (m, d)
    rw [hk, hexpired]
    · exact ⟨rfl, rfl⟩
    · rintro ⟨n, hn, hfd⟩
      exact hnone n hn hfd
  · rw [wp_read hm hn, wp_dref hm hn, hrefused n hn hfd]
    show (k (some [denied])).wp (interp db) (Answers m d op) (m, d)
    rw [hk, hdenied ⟨n, hn, hfd⟩]
    exact ⟨rfl, rfl⟩

/-- The element that a handler answers with when it refuses. -/
def refusal (kind : Kind) (session : Bool) : PackOp :=
  match kind with
  | .cookAccept => if session then CookResult.noPermission.append else CookResult.ok.append
  | _ => DishResult.noPermission.append

theorem wp_refused (hm : Settled (fun _ _ _ => True) m) {r : Request} {allowed : ℤ → Bool} {code : ℤ}
    (hguard : r.kind.guard = some (allowed, code)) (hrefused : Refused m r.fd allowed) :
    r.handler.wp (interp db) (Answers m d (refusal r.kind (HasSession m r.fd))) (m, d) := by
  obtain ⟨kind, fd, pack, junk⟩ := r
  have hdish : ∀ {k : Option Reply → Handler Reply}, (∀ reply, k (some reply) = ret reply) →
      (checkPermission fd allowed DishResult.noPermission.append DishResult.noPermission.append >>=
        k).wp (interp db) (Answers m d DishResult.noPermission.append) (m, d) :=
    fun hk => wp_checkPermission_refused hm hrefused hk (fun _ => rfl) fun _ => rfl
  cases kind with
  | accountList | dishFetch | dishBook | dishCancel | dishList =>
    obtain ⟨rfl, -⟩ := Prod.mk.inj (Option.some.inj hguard)
    exact hdish fun _ => rfl
  | seatList =>
    obtain ⟨rfl, -⟩ := Prod.mk.inj (Option.some.inj hguard)
    refine wp_refFd hm (fun _ => ⟨rfl, rfl⟩) fun n hn hfd => ?_
    exact absurd (hrefused n hn hfd) (by simp)
  | cookAccept =>
    obtain ⟨rfl, -⟩ := Prod.mk.inj (Option.some.inj hguard)
    refine wp_checkPermission_refused hm hrefused (fun _ => rfl) (fun hno => ?_) fun hyes => ?_
    · simp [refusal, hno]
    · simp [refusal, hyes]
  | _ => cases hguard

theorem replyResult_refusal_iff {kind : Kind} {allowed : ℤ → Bool} {code : ℤ}
    (hguard : kind.guard = some (allowed, code)) (session : Bool) :
    replyResult [refusal kind session] = some code ↔ kind = .dishFetch ∨ kind = .dishBook ∨
      kind = .dishCancel ∨ kind = .dishList ∨ kind = .cookAccept ∧ session := by
  cases kind with
  | accountList | dishFetch | dishBook | dishCancel | dishList | seatList | cookAccept =>
    obtain ⟨-, rfl⟩ := Prod.mk.inj (Option.some.inj hguard)
    cases session <;> decide
  | _ => cases hguard

end Replies

/-- For every request without a session of an allowed role: the sessions and the database
stay as they were and the client reads a refusal exactly if the handler is one of the
four for the dishes, or the one of the cook on a connection with a session. -/
theorem refusal_reported_iff (db : Db δ) {m : SessionMod} (hm : Settled (fun _ _ _ => True) m)
    (d : δ) {r : Request} {allowed : ℤ → Bool} {code : ℤ}
    (hguard : r.kind.guard = some (allowed, code)) (hrefused : Refused m r.fd allowed) :
    RefusalReported db (m, d) r code ↔ Reports m r := by
  have hwp : r.handler.wp (interp db) (Answers m d (refusal r.kind (HasSession m r.fd))) (m, d) :=
    wp_refused hm hguard hrefused
  obtain ⟨reply, s, hexec, rfl, rfl⟩ := wp_iff_exec.mp hwp
  have hreported : RefusalReported db (m, d) r code ↔
      replyResult [refusal r.kind (HasSession m r.fd)] = some code := by
    constructor
    · rintro ⟨reply', m', d', hexec', -, -, hresult⟩
      obtain ⟨-, rfl⟩ := hwp.of_exec hexec'
      exact hresult
    · exact fun hresult => ⟨_, m, d, hexec, rfl, rfl, hresult⟩
  rw [hreported, replyResult_refusal_iff hguard, decide_eq_true_iff, Reports]

/-- Connection 5 has no session and asks for the dishes. -/
theorem refusal_reported_dishFetch :
    RefusalReported smallDb (.init ⟨0, lit "", 0, .fd, lit "", 0⟩, [ann], ())
      ⟨.dishFetch, 5, none, noJunk⟩ 5 :=
  (refusal_reported_iff smallDb (.init _ _) _ rfl nofun).mpr (.inl rfl)

/-- Connection 5 has no session, asks for the list of the accounts and reads
`account_r_create_uid_exist`. -/
theorem refusal_misreported :
    ¬ RefusalReported smallDb (.init ⟨0, lit "", 0, .fd, lit "", 0⟩, [ann], ())
      ⟨.accountList, 5, none, noJunk⟩ AccountResult.noPermission.ctorIdx := by
  rintro ⟨reply, m', d', hexec, -, -, hresult⟩
  obtain ⟨rfl, -⟩ := Prod.mk.inj (Option.some.inj hexec)
  exact absurd hresult (by decide)

end Youmenu.Server
