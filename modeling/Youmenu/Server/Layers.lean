import Youmenu.Lib.Refinement
import Youmenu.Server.Functions
import Youmenu.Server.Service

/-!
# The server over the provider of the database

A run of the server in which every call of the database goes down to the statements, rows and
columns of the provider is a run of the server on tables, with the same replies: nothing is read
outside of a row and nothing written outside of a field. What is asked for is that the strings of
the requests have no quotes, and that the rows fit into the fields of `public.h` at the start.

## Main definitions

* `Backend.interp`, `Backend.served` — the server over the functions of the `db_*.c` files.
* `PlainRequest` — what is asked of the strings of a request.
* `Proper` — what is asked of a call of a handler.

## Main statements

* `respects_handler` — the handlers make proper calls only.
* `layers_agree` — the runs are the same.
-/

namespace Youmenu.Server.Dbp

open Eventpack Program Transition

/-! ## The source -/

section Source

variable (B : Backend)

/-- What each call of a handler does. The session module does not see the database. -/
def Backend.interp :
    (e : Effect) → SessionMod × ServerTables → Option (e.Result × (SessionMod × ServerTables))
  | .db op, (m, t) =>
    (B.call op t).map fun r => (r.1, m, r.2)
  | e, (m, t) => (Server.interp emptyDb e (m, ())).map fun r => (r.1, r.2.1, t)

/-- A request runs to its end, with its reply kept, or a connection is closed. -/
def Backend.served (s : SessionMod × ServerTables) :
    ServerEvent → Option ((SessionMod × ServerTables) × List (Request × Reply))
  | .request r => (r.handler.exec B.interp s).map fun x => (x.2, [(r, x.1)])
  | .disconnect fd => (disconnect s fd).map fun s' => (s', [])

end Source

/-- The strings of a profile or of an order fit into the fields of `public.h`. -/
def Request.Short (r : Request) : Prop :=
  match r.kind with
  | .accountModifyBasic =>
    let p := modifyBasicParam r.junk r.pack
    p.nick.bytes.length ≤ 64 ∧ p.comment.bytes.length ≤ 256
  | .dishBook => r.comment.bytes.length ≤ 255
  | _ => True

/-- The request is plain, and its strings fit. -/
def PlainRequest (build : Build) (r : Request) : Prop :=
  r.Plain (dbEncryptPwd build) ∧ Request.Short r

/-! ## Calls of the handlers -/

/-- A call of the database is made on rows that fit, and with fine arguments. -/
def Proper (build : Build) (e : Effect) (s : SessionMod × ServerTables) : Prop :=
  match e with
  | .db op => s.2.Fits ∧ Countable s.2.view ∧ Fine build op
  | _ => True

/-- No user in the table of the sessions has a quote in its name. -/
def Named (m : SessionMod) : Prop := ∀ n ∈ m.sessionList, QuoteFree n.session.uid

/-- What holds between two requests. -/
def Sane (s : SessionMod × ServerTables) : Prop := Named s.1 ∧ s.2.Fits

def viewed (s : SessionMod × ServerTables) : SessionMod × (List Account × Menu × Unit) :=
  (s.1, s.2.view)

/-- A proper call gives what it gives on the tables. -/
theorem interp_agrees {B : Backend} {e : Effect} {s : SessionMod × ServerTables}
    (he : Proper B.build e s) : Agrees viewed (B.interp e) (Server.interp B.onTables e) s := by
  obtain ⟨m, t⟩ := s
  cases e with
  | db op =>
    obtain ⟨hfits, hcount, hfine⟩ := he
    obtain ⟨t', hcall, hview, -⟩ := call_agrees hfits hcount hfine
    simp only [Agrees, Backend.interp, hcall, Server.interp, viewed, ← hview, Option.map_some,
      Prod.map, id]
  | refFd | refUid | refToken | dref | read | delFd | delToken | addFd | addToken =>
    simp [Agrees, Backend.interp, Server.interp, viewed, Function.comp_def]

/-! ### Rules -/

/-- The address is that of a session in the table. -/
def InTable (m : SessionMod) (session : ℕ) : Prop := ∃ n ∈ m.sessionList, n.addr = session

theorem inTable_refAll {m m' : SessionMod} {found : List SessionNode} {r : Option ℕ}
    (h : m.refAll found = some (r, m')) (hfound : ∀ n ∈ found, n ∈ m.sessionList) :
    ∀ session ∈ r, InTable m' session := by
  intro session hr
  rw [InTable, (SessionMod.refAll_table h).1]
  unfold SessionMod.refAll at h
  split at h
  · obtain ⟨⟩ := Option.some.inj h
    cases hr
  · next n hlast =>
    obtain ⟨m₁, -, ⟨⟩⟩ := Option.map_eq_some_iff.mp h
    obtain rfl := Option.some.inj hr
    exact ⟨n, hfound n (List.mem_of_getLast? hlast), rfl⟩

theorem inTable_refToken {m m' : SessionMod} {token : CString} {r : Option ℕ}
    (h : m.refToken token = some (r, m')) : ∀ session ∈ r, InTable m' session := by
  intro session hr
  rw [InTable, (SessionMod.refToken_table h).1]
  unfold SessionMod.refToken at h
  split at h
  · obtain ⟨⟩ := Option.some.inj h
    cases hr
  · next n hfind =>
    obtain ⟨m₁, -, ⟨⟩⟩ := Option.map_eq_some_iff.mp h
    obtain rfl := Option.some.inj hr
    exact ⟨n, List.mem_of_find?_eq_some hfind, rfl⟩

theorem Named.of_eq {m m' : SessionMod} (h : Named m) (heq : m'.sessionList = m.sessionList) :
    Named m' := by
  rwa [Named, heq]

/-- What is read through the address of a session in the table. -/
theorem Named.read {m : SessionMod} (h : Named m) {session : ℕ} (hin : InTable m session) :
    QuoteFree (m.read session).1.uid := by
  obtain ⟨n, hn, haddr⟩ := hin
  obtain ⟨n', hn'⟩ : ∃ n', m.sessionList.find? (·.addr = session) = some n' :=
    Option.isSome_iff_exists.mp (List.find?_isSome.mpr ⟨n, hn, by simpa using haddr⟩)
  rw [SessionMod.read, hn']
  exact h n' (List.mem_of_find?_eq_some hn')

section Rules

variable {B : Backend} {α : Type} {Q : α → SessionMod × ServerTables → Prop} {m : SessionMod}
  {t : ServerTables}

variable (B) in
/-- The handler makes proper calls only. -/
abbrev Backend.Respected (p : Handler α) (Q : α → SessionMod × ServerTables → Prop)
    (s : SessionMod × ServerTables) : Prop :=
  p.Respects B.interp (Proper B.build) Q s

/-- A call of the session module sees the sessions only. -/
theorem respects_session {e : Effect} {k : e.Result → Handler α} (he : ∀ op, e ≠ .db op)
    (hk : ∀ r m', Server.interp emptyDb e (m, ()) = some (r, m', ()) →
      B.Respected (k r) Q (m', t)) :
    B.Respected (.call e k) Q (m, t) := by
  have hinterp : B.interp e (m, t) =
      (Server.interp emptyDb e (m, ())).map fun r => (r.1, r.2.1, t) := by
    cases e with
    | db op => exact absurd rfl (he op)
    | _ => rfl
  refine ⟨?_, fun r s' hcall => ?_⟩
  · cases e with
    | db op => exact absurd rfl (he op)
    | _ => trivial
  · rw [hinterp] at hcall
    obtain ⟨⟨r₁, m', u⟩, hsession, ⟨⟩⟩ := Option.map_eq_some_iff.mp hcall
    exact hk r₁ m' hsession

section Sessions

variable {k : Option ℕ → Handler α} (hm : Named m)

include hm

theorem respects_refFd {fd : ℤ}
    (hk : ∀ found m', Named m' → (∀ session ∈ found, InTable m' session) →
      B.Respected (k found) Q (m', t)) :
    B.Respected (sessionRefFd fd >>= k) Q (m, t) := by
  refine respects_session nofun fun r m' hcall => ?_
  obtain ⟨⟨r, m'⟩, href, ⟨⟩⟩ := Option.map_eq_some_iff.mp hcall
  exact hk r m' (hm.of_eq (SessionMod.refAll_table href).1)
    (inTable_refAll href fun n hn => List.mem_of_mem_filter hn)

theorem respects_refUid {uid : CString} {type : SessionType}
    (hk : ∀ found m', Named m' → (∀ session ∈ found, InTable m' session) →
      B.Respected (k found) Q (m', t)) :
    B.Respected (sessionRefUid uid type >>= k) Q
      (m, t) := by
  refine respects_session nofun fun r m' hcall => ?_
  obtain ⟨⟨r, m'⟩, href, ⟨⟩⟩ := Option.map_eq_some_iff.mp hcall
  refine hk r m' (hm.of_eq (SessionMod.refAll_table href).1) (inTable_refAll href fun n hn => ?_)
  exact List.mem_of_find?_eq_some (Option.mem_toList.mp hn)

theorem respects_refToken {token : CString}
    (hk : ∀ found m', Named m' → (∀ session ∈ found, InTable m' session) →
      B.Respected (k found) Q (m', t)) :
    B.Respected (sessionRefToken token >>= k) Q
      (m, t) := by
  refine respects_session nofun fun r m' hcall => ?_
  obtain ⟨⟨r, m'⟩, href, ⟨⟩⟩ := Option.map_eq_some_iff.mp hcall
  exact hk r m' (hm.of_eq (SessionMod.refToken_table href).1) (inTable_refToken href)

theorem respects_read {session : ℕ} {k : Session → Handler α}
    (hk : ∀ s m', Named m' → (∀ session, InTable m session → InTable m' session) →
      (InTable m session → QuoteFree s.uid) →
      B.Respected (k s) Q (m', t)) :
    B.Respected (sessionRead session >>= k) Q
      (m, t) := by
  refine respects_session nofun fun r m' hcall => ?_
  obtain ⟨⟩ := Option.some.inj hcall
  exact hk _ _ (hm.of_eq rfl) (fun _ hin => hin) hm.read

theorem respects_dref {session : ℕ} {k : Unit → Handler α}
    (hk : ∀ m', Named m' → B.Respected (k ()) Q
      (m', t)) :
    B.Respected (sessionDref session >>= k) Q
      (m, t) := by
  refine respects_session nofun fun r m' hcall => ?_
  obtain ⟨⟩ := Option.some.inj hcall
  exact hk _ (hm.of_eq (SessionMod.dref_table session).1)

theorem named_delAll {m' : SessionMod} {hit : SessionNode → Bool} {b : Bool}
    (h : m.delAll hit = some (b, m')) : Named m' :=
  fun n hn => hm n ((SessionMod.delAll_table h).2 n hn).1

theorem named_add {m' : SessionMod} {s : Session} {b : Bool} (h : m.add s = some (b, m'))
    (huid : QuoteFree s.uid) : Named m' := by
  intro n hn
  rcases (SessionMod.add_table h).2 n hn with hn | ⟨rfl, -⟩
  · exact hm n hn
  · exact huid

theorem respects_delFd {fd : ℤ} {k : Bool → Handler α}
    (hk : ∀ b m', Named m' → B.Respected (k b) Q
      (m', t)) :
    B.Respected (sessionDelFd fd >>= k) Q (m, t) := by
  refine respects_session nofun fun r m' hcall => ?_
  obtain ⟨⟨b, m'⟩, hdel, ⟨⟩⟩ := Option.map_eq_some_iff.mp hcall
  exact hk b m' (named_delAll hm hdel)

theorem respects_delToken {uid : CString} {k : Bool → Handler α}
    (hk : ∀ b m', Named m' → B.Respected (k b) Q
      (m', t)) :
    B.Respected (sessionDelToken uid >>= k) Q
      (m, t) := by
  refine respects_session nofun fun r m' hcall => ?_
  obtain ⟨⟨b, m'⟩, hdel, ⟨⟩⟩ := Option.map_eq_some_iff.mp hcall
  exact hk b m' (named_delAll hm hdel)

theorem respects_addFd {s : Session} {k : Bool → Handler α} (huid : QuoteFree s.uid)
    (hk : ∀ b m', Named m' → B.Respected (k b) Q
      (m', t)) :
    B.Respected (sessionAddFd s >>= k) Q (m, t) := by
  refine respects_session nofun fun r m' hcall => ?_
  obtain ⟨⟨b, m'⟩, hadd, ⟨⟩⟩ := Option.map_eq_some_iff.mp hcall
  exact hk b m' (named_add hm hadd huid)

theorem respects_addToken {s : Session} {k : Bool → Handler α} (huid : QuoteFree s.uid)
    (hk : ∀ b m', Named m' → B.Respected (k b) Q
      (m', t)) :
    B.Respected (sessionAddToken s >>= k) Q
      (m, t) := by
  refine respects_session nofun fun r m' hcall => ?_
  obtain ⟨⟨b, m'⟩, hadd, ⟨⟩⟩ := Option.map_eq_some_iff.mp hcall
  exact hk b m' (named_add hm hadd huid)

end Sessions

/-- A call of the database with fine arguments; rows are only added by calls that are there
for it. -/
theorem respects_db (hfits : t.Fits) (hcount : Countable t.view) {op : DbOp}
    {k : op.Result → Handler α} (hfine : Fine B.build op)
    (hk : ∀ r t', t'.Fits → (¬ Grows op → Countable t'.view) → B.Respected (k r) Q (m, t')) :
    B.Respected (db op >>= k) Q (m, t) := by
  refine respects_perform ⟨hfits, hcount, hfine⟩ fun r s' hcall => ?_
  obtain ⟨t', hcall', -, hfits', hcount'⟩ := call_agrees hfits hcount hfine
  simp only [Backend.interp, hcall', Option.map_some] at hcall
  obtain ⟨⟩ := Option.some.inj hcall
  exact hk _ t' hfits' hcount'

end Rules

/-! ## The handlers -/

/-- What the checks of a new account leave to its row. -/
theorem accountFits_of_valid {a : Account} (hvalid : validAccount a) :
    AccountFits { a with uid := wordToLower a.uid } := by
  simp only [validAccount, validUid, validPwd, validType, validNick, validComment,
    Bool.and_eq_true, decide_eq_true_eq] at hvalid
  obtain ⟨⟨⟨⟨huid, hpwd⟩, htype⟩, hnick⟩, hcomment⟩ := hvalid
  have hlength : (wordToLower a.uid).bytes.length = a.uid.bytes.length := by simp [wordToLower]
  have hlower : (wordToLower a.uid).bytes.length < 17 := by omega
  have hpwd' : a.pwd.bytes.length < 129 := by omega
  have htype' : IsInt a.type := ⟨by omega, by omega⟩
  have hnick' : a.nick.bytes.length < 65 := by omega
  have hcomment' : a.comment.bytes.length < 257 := by omega
  exact ⟨htype', hlower, hpwd', hnick', hcomment'⟩

/-- The number of a table or a dish is an `int`. -/
theorem isLong_intParam {pack : Pack} {key : String} (hnonneg : 0 ≤ intParam pack key (-1)) :
    IsLong (intParam pack key (-1)) := by
  have hlt : intParam pack key (-1) < 2 ^ 31 := by
    refine List.foldlRecOn _ _ (motive := fun x : ℤ => x < 2 ^ 31) (by decide) ?_
    intro x hx f _
    split_ifs
    · exact f.value.toInt_lt
    · exact hx
  exact ⟨by omega, by omega⟩

section Handlers

variable {B : Backend} {m : SessionMod} {t : ServerTables} {fd : ℤ}

section Logins

variable {α : Type} {Q : α → SessionMod × ServerTables → Prop} (hm : Named m)

include hm

theorem respects_dropSession {found : Option ℕ} {k : Bool → Handler α}
    (hk : ∀ b m', Named m' → B.Respected (k b) Q (m', t)) :
    B.Respected (dropSession found >>= k) Q (m, t) := by
  cases found with
  | none => exact hk false m hm
  | some old =>
    refine respects_read hm fun s m₁ hm₁ _ _ => respects_dref hm₁ fun m₂ hm₂ => ?_
    exact respects_delFd hm₂ fun b m₃ hm₃ => hk true m₃ hm₃

theorem respects_checkSessionExist {uid : CString} {k : Bool → Handler α}
    (hk : ∀ b m', Named m' → B.Respected (k b) Q (m', t)) :
    B.Respected (resAccountCheckSessionExist uid fd >>= k) Q (m, t) := by
  refine Respects.bind ?_
  refine respects_refUid hm fun found m₁ hm₁ _ => respects_dropSession hm₁ fun b m₂ hm₂ => ?_
  refine respects_refFd hm₂ fun found m₃ hm₃ _ => respects_dropSession hm₃ fun b' m₄ hm₄ => ?_
  exact hk _ m₄ hm₄

theorem respects_loginToken {s : Session} (huid : QuoteFree s.uid) {guid : CString}
    {k : Reply → Handler α} (hk : ∀ reply m', Named m' → B.Respected (k reply) Q (m', t)) :
    B.Respected (loginToken s guid >>= k) Q (m, t) := by
  have hadd : ∀ m', Named m' → B.Respected (sessionAddToken { s with
      sType := .token, token := guid, fd := -1 } >>= fun _ => k [appendString "token" guid]) Q
        (m', t) := fun m' hm' => respects_addToken hm' huid fun _ m₁ hm₁ => hk _ m₁ hm₁
  refine respects_refUid hm fun found m₁ hm₁ _ => ?_
  cases found with
  | none => exact hadd m₁ hm₁
  | some old =>
    refine respects_read hm₁ fun s m₂ hm₂ _ _ => respects_dref hm₂ fun m₃ hm₃ => ?_
    exact respects_delToken hm₃ fun b m₄ hm₄ => hadd m₄ hm₄

theorem respects_checkPermission {allowed : ℤ → Bool} {expired denied : PackOp}
    {k : Option Reply → Handler α} (hk : ∀ reply m', Named m' → B.Respected (k reply) Q (m', t)) :
    B.Respected (checkPermission fd allowed expired denied >>= k) Q (m, t) := by
  refine respects_refFd hm fun found m₁ hm₁ _ => ?_
  cases found with
  | none => exact hk _ m₁ hm₁
  | some session =>
    refine respects_read hm₁ fun s m₂ hm₂ _ _ => respects_dref hm₂ fun m₃ hm₃ => ?_
    exact hk _ m₃ hm₃

end Logins

variable (hm : Named m) (hfits : t.Fits) (hcount : Countable t.view)

include hm hfits hcount

theorem respects_loginByPwd {p : LoginParam} (huid : QuoteFree p.uid)
    (hpwd : Hashable B.build p.pwd) (junk : Junk) :
    B.Respected (loginByPwd junk fd p) (fun _ s => Sane s) (m, t) := by
  refine respects_db hfits hcount huid fun r t₁ hfits₁ hcount₁ => ?_
  cases r with
  | none => exact ⟨hm, hfits₁⟩
  | some _ =>
    refine respects_db hfits₁ (hcount₁ id) ⟨huid, hpwd⟩ fun r t₂ hfits₂ hcount₂ => ?_
    cases r with
    | false => exact ⟨hm, hfits₂⟩
    | true =>
      refine respects_checkSessionExist hm fun conflict m₁ hm₁ => ?_
      refine respects_db hfits₂ (hcount₂ id) huid fun r t₃ hfits₃ _ => ?_
      cases r with
      | none => exact ⟨hm₁, hfits₃⟩
      | some a =>
        refine respects_addFd hm₁ huid fun _ m₂ hm₂ => ?_
        split
        · exact respects_loginToken hm₂ huid fun reply m₃ hm₃ => ⟨hm₃, hfits₃⟩
        · exact ⟨hm₂, hfits₃⟩

theorem respects_loginByToken (token : CString) :
    B.Respected (loginByToken fd token) (fun _ s => Sane s) (m, t) := by
  refine respects_refToken hm fun found m₁ hm₁ hin => ?_
  cases found with
  | none => exact ⟨hm₁, hfits⟩
  | some old =>
    refine respects_read hm₁ fun s m₂ hm₂ _ hread => respects_dref hm₂ fun m₃ hm₃ => ?_
    have huid := hread (hin old rfl)
    refine respects_checkSessionExist hm₃ fun conflict m₄ hm₄ => ?_
    refine respects_addFd hm₄ huid fun _ m₅ hm₅ => ?_
    refine respects_db hfits hcount huid fun r t₁ hfits₁ _ => ?_
    cases r with
    | none => exact ⟨hm₅, hfits₁⟩
    | some a => exact ⟨hm₅, hfits₁⟩

theorem respects_resAccountLogin {junk : Junk} {pack : Pack}
    (huid : QuoteFree (loginParam junk pack).uid)
    (hpwd : QuoteFree (dbEncryptPwd B.build (loginParam junk pack).pwd)) :
    B.Respected (resAccountLogin junk fd pack) (fun _ s => Sane s) (m, t) := by
  simp only [resAccountLogin]
  split_ifs with hvalid
  · obtain ⟨-, hvalid⟩ := Bool.and_eq_true_iff.mp hvalid
    have hpwd' : Hashable B.build (loginParam junk pack).pwd :=
      ⟨hpwd, Builder.length_dbEncryptPwd_le hvalid⟩
    exact respects_loginByPwd hm hfits hcount huid hpwd' junk
  · exact respects_loginByToken hm hfits hcount _
  · exact ⟨hm, hfits⟩

omit hcount in
theorem respects_resHeartbeat : B.Respected (resHeartbeat fd) (fun _ s => Sane s) (m, t) := by
  refine respects_refFd hm fun found m₁ hm₁ _ => ?_
  cases found with
  | none => exact ⟨hm₁, hfits⟩
  | some session =>
    refine respects_read hm₁ fun s m₂ hm₂ _ _ => respects_dref hm₂ fun m₃ hm₃ => ?_
    exact ⟨hm₃, hfits⟩

omit hcount in
theorem respects_resAccountLogout :
    B.Respected (resAccountLogout fd) (fun _ s => Sane s) (m, t) := by
  refine respects_refFd hm fun found m₁ hm₁ _ => ?_
  cases found with
  | none => exact ⟨hm₁, hfits⟩
  | some session =>
    refine respects_dref hm₁ fun m₂ hm₂ => respects_delFd hm₂ fun b m₃ hm₃ => ?_
    exact ⟨hm₃, hfits⟩

theorem respects_createAccount {a : Account} (hvalid : validAccount a) (huid : QuoteFree a.uid)
    (hpwd : QuoteFree (dbEncryptPwd B.build a.pwd)) (hnick : QuoteFree a.nick)
    (hcomment : QuoteFree a.comment) :
    B.Respected (createAccount a) (fun _ s => Sane s) (m, t) := by
  refine respects_db hfits hcount huid fun r t₁ hfits₁ hcount₁ => ?_
  cases r with
  | some _ => exact ⟨hm, hfits₁⟩
  | none =>
    have hsize : (dbEncryptPwd B.build a.pwd).bytes.length ≤ 40 := by
      simp only [validAccount, Bool.and_eq_true] at hvalid
      exact Builder.length_dbEncryptPwd_le hvalid.1.1.1.2
    refine respects_db hfits₁ (hcount₁ id) ⟨accountFits_of_valid hvalid, wordToLower_idem _,
      quoteFree_wordToLower.mpr huid, ⟨hpwd, hsize⟩, hnick, hcomment⟩ fun r t₂ hfits₂ _ => ?_
    split
    · exact ⟨hm, hfits₂⟩
    · exact ⟨hm, hfits₂⟩

theorem respects_resAccountCreate {junk : Junk} {pack : Pack}
    (huid : QuoteFree (createParam junk pack).uid)
    (hpwd : QuoteFree (dbEncryptPwd B.build (createParam junk pack).pwd))
    (hnick : QuoteFree (createParam junk pack).nick)
    (hcomment : QuoteFree (createParam junk pack).comment) :
    B.Respected (resAccountCreate junk fd pack) (fun _ s => Sane s) (m, t) := by
  simp only [resAccountCreate]
  split_ifs with hvalid
  · refine respects_refFd hm fun found m₁ hm₁ _ => ?_
    cases found with
    | none => exact ⟨hm₁, hfits⟩
    | some session =>
      refine respects_read hm₁ fun s m₂ hm₂ _ _ => respects_dref hm₂ fun m₃ hm₃ => ?_
      refine respects_read hm₃ fun s m₄ hm₄ _ _ => ?_
      split
      · exact ⟨hm₄, hfits⟩
      · exact respects_createAccount hm₄ hfits hcount hvalid huid hpwd hnick hcomment
  · exact ⟨hm, hfits⟩

theorem respects_resAccountModifyPwd {junk : Junk} {pack : Pack}
    (hold : QuoteFree (modifyPwdParam junk pack).oldPwd)
    (holdPwd : QuoteFree (dbEncryptPwd B.build (modifyPwdParam junk pack).oldPwd))
    (hnewPwd : QuoteFree (dbEncryptPwd B.build (modifyPwdParam junk pack).newPwd)) :
    B.Respected (resAccountModifyPwd junk fd pack) (fun _ s => Sane s) (m, t) := by
  simp only [resAccountModifyPwd]
  split_ifs with hvalid hsame
  · exact ⟨hm, hfits⟩
  · exact ⟨hm, hfits⟩
  · simp only [Bool.not_eq_true', Bool.not_eq_false, Bool.and_eq_true] at hvalid
    obtain ⟨hvalidOld, hvalidNew⟩ := hvalid
    refine respects_refFd hm fun found m₁ hm₁ hin => ?_
    cases found with
    | none => exact ⟨hm₁, hfits⟩
    | some session =>
      refine respects_db hfits hcount ⟨hold, holdPwd, Builder.length_dbEncryptPwd_le hvalidOld⟩
        fun r t₁ hfits₁ hcount₁ => ?_
      cases r with
      | false => exact respects_dref hm₁ fun m₂ hm₂ => ⟨hm₂, hfits₁⟩
      | true =>
        refine respects_read hm₁ fun s m₂ hm₂ _ hread => ?_
        refine respects_db hfits₁ (hcount₁ id) ⟨hread (hin session rfl), hnewPwd,
          Builder.length_dbEncryptPwd_le hvalidNew⟩ fun r t₂ hfits₂ _ => ?_
        refine respects_dref hm₂ fun m₃ hm₃ => ?_
        split
        · exact ⟨hm₃, hfits₂⟩
        · exact ⟨hm₃, hfits₂⟩

theorem respects_resAccountModifyBasic {junk : Junk} {pack : Pack}
    (hnick : QuoteFree (modifyBasicParam junk pack).nick)
    (hnickSize : (modifyBasicParam junk pack).nick.bytes.length ≤ 64)
    (hcomment : QuoteFree (modifyBasicParam junk pack).comment)
    (hcommentSize : (modifyBasicParam junk pack).comment.bytes.length ≤ 256) :
    B.Respected (resAccountModifyBasic junk fd pack) (fun _ s => Sane s) (m, t) := by
  refine respects_refFd hm fun found m₁ hm₁ hin => ?_
  cases found with
  | none => exact ⟨hm₁, hfits⟩
  | some session =>
    refine respects_read hm₁ fun s m₂ hm₂ hkept hread => ?_
    refine respects_db hfits hcount ⟨hread (hin session rfl), hnick, by omega⟩
      fun r t₁ hfits₁ hcount₁ => ?_
    cases r with
    | false => exact ⟨hm₂, hfits₁⟩
    | true =>
      refine respects_read hm₂ fun s m₃ hm₃ _ hread => ?_
      refine respects_db hfits₁ (hcount₁ id) ⟨hread (hkept _ (hin session rfl)), hcomment,
        by omega⟩ fun r t₂ hfits₂ _ => ?_
      split
      · exact ⟨hm₃, hfits₂⟩
      · exact ⟨hm₃, hfits₂⟩

omit hm in
theorem respects_lastAdmin {α : Type} {Q : α → SessionMod × ServerTables → Prop} (s : Session)
    {k : Bool → Handler α}
    (hk : ∀ b t', t'.Fits → Countable t'.view → B.Respected (k b) Q (m, t')) :
    B.Respected (lastAdmin s >>= k) Q (m, t) := by
  unfold lastAdmin
  split
  · exact respects_db hfits hcount trivial fun r t₁ hfits₁ hcount₁ => hk _ t₁ hfits₁ (hcount₁ id)
  · exact hk false t hfits hcount

theorem respects_deleteOwn {uid : CString} (huid : QuoteFree uid) (session : ℕ) :
    B.Respected (deleteOwn fd uid session) (fun _ s => Sane s) (m, t) := by
  refine respects_read hm fun s m₁ hm₁ _ _ => ?_
  refine respects_lastAdmin hfits hcount s fun last t₁ hfits₁ hcount₁ => ?_
  cases last with
  | true => exact respects_dref hm₁ fun m₂ hm₂ => ⟨hm₂, hfits₁⟩
  | false =>
    refine respects_dref hm₁ fun m₂ hm₂ => respects_delFd hm₂ fun _ m₃ hm₃ => ?_
    refine respects_delToken hm₃ fun _ m₄ hm₄ => ?_
    exact respects_db hfits₁ hcount₁ huid fun r t₂ hfits₂ _ => ⟨hm₄, hfits₂⟩

theorem respects_deleteOther {uid : CString} (huid : QuoteFree uid) (session : ℕ) :
    B.Respected (deleteOther uid session) (fun _ s => Sane s) (m, t) := by
  refine respects_read hm fun s m₁ hm₁ _ _ => ?_
  split
  · exact respects_dref hm₁ fun m₂ hm₂ => ⟨hm₂, hfits⟩
  · refine respects_dref hm₁ fun m₂ hm₂ => ?_
    exact respects_db hfits hcount huid fun r t₁ hfits₁ _ => ⟨hm₂, hfits₁⟩

theorem respects_resAccountDelete {junk : Junk} {pack : Pack}
    (huid : QuoteFree (deleteParam junk pack).uid)
    (hpwd : QuoteFree (dbEncryptPwd B.build (deleteParam junk pack).oldPwd)) :
    B.Respected (resAccountDelete junk fd pack) (fun _ s => Sane s) (m, t) := by
  simp only [resAccountDelete]
  split_ifs with hvalid
  · obtain ⟨-, hvalid⟩ := Bool.and_eq_true_iff.mp hvalid
    refine respects_refFd hm fun found m₁ hm₁ hin => ?_
    cases found with
    | none => exact ⟨hm₁, hfits⟩
    | some session =>
      refine respects_read hm₁ fun s m₂ hm₂ _ hread => ?_
      refine respects_db hfits hcount ⟨hread (hin session rfl), hpwd,
        Builder.length_dbEncryptPwd_le hvalid⟩ fun r t₁ hfits₁ hcount₁ => ?_
      cases r with
      | false => exact ⟨hm₂, hfits₁⟩
      | true =>
        refine respects_read hm₂ fun s m₃ hm₃ _ _ => ?_
        split
        · exact respects_deleteOwn hm₃ hfits₁ (hcount₁ id) huid session
        · exact respects_deleteOther hm₃ hfits₁ (hcount₁ id) huid session
  · exact ⟨hm, hfits⟩

/-- The last call of a handler, with a reply made of its result. -/
theorem respects_last {op : DbOp} {k : op.Result → Handler Reply} (hfine : Fine B.build op)
    (hk : ∀ r, ∃ reply, k r = .ret reply) :
    B.Respected (db op >>= k) (fun _ s => Sane s) (m, t) := by
  refine respects_db hfits hcount hfine fun r t₁ hfits₁ _ => ?_
  obtain ⟨reply, hreply⟩ := hk r
  rw [hreply]
  exact ⟨hm, hfits₁⟩

omit hcount in
/-- A handler that goes on only if the role of the session allows it. -/
theorem respects_permitted {allowed : ℤ → Bool} {expired denied : PackOp}
    {k : Option Reply → Handler Reply} (hsome : ∀ reply, k (some reply) = .ret reply)
    (hnone : ∀ m', Named m' → B.Respected (k none) (fun _ s => Sane s) (m', t)) :
    B.Respected (checkPermission fd allowed expired denied >>= k) (fun _ s => Sane s) (m, t) := by
  refine respects_checkPermission hm fun reply m₁ hm₁ => ?_
  cases reply with
  | none => exact hnone m₁ hm₁
  | some reply =>
    rw [hsome]
    exact ⟨hm₁, hfits⟩

theorem respects_resAccountList : B.Respected (resAccountList fd) (fun _ s => Sane s) (m, t) := by
  refine respects_permitted hm hfits (fun _ => rfl) fun m₁ hm₁ => ?_
  refine respects_last hm₁ hfits hcount trivial fun accounts => ?_
  cases accounts <;> exact ⟨_, rfl⟩

theorem respects_resDishFetch (pack : Pack) :
    B.Respected (resDishFetch fd pack) (fun _ s => Sane s) (m, t) := by
  refine respects_permitted hm hfits (fun _ => rfl) fun m₁ hm₁ => ?_
  refine respects_last hm₁ hfits hcount trivial fun dishes => ?_
  cases dishes <;> exact ⟨_, rfl⟩

theorem respects_resDishBook {junk : Junk} {pack : Pack}
    (hjin : (bookParam junk pack).jinOrPlate.finite)
    (hcomment : QuoteFree (bookComment junk (bookParam junk pack).comment))
    (hsize : (bookComment junk (bookParam junk pack).comment).bytes.length ≤ 255) :
    B.Respected (resDishBook junk fd pack) (fun _ s => Sane s) (m, t) := by
  refine respects_permitted hm hfits (fun _ => rfl) fun m₁ hm₁ => ?_
  simp only
  split_ifs with hillegal
  · exact ⟨hm₁, hfits⟩
  -- the numbers of the order are not negative
  simp only [Bool.or_eq_true, decide_eq_true_eq, not_or, not_lt] at hillegal
  obtain ⟨⟨hseat, hdish⟩, -⟩ := hillegal
  have hseat' : IsLong (intParam pack "seat_id" (-1)) := isLong_intParam hseat
  have hdish' : IsLong (intParam pack "dish_id" (-1)) := isLong_intParam hdish
  refine respects_db hfits hcount trivial fun r t₁ hfits₁ hcount₁ => ?_
  split
  · exact ⟨hm₁, hfits₁⟩
  refine respects_db hfits₁ (hcount₁ id) trivial fun r t₂ hfits₂ hcount₂ => ?_
  split
  · exact ⟨hm₁, hfits₂⟩
  have hsize' : (bookComment junk (bookParam junk pack).comment).bytes.length < 256 := by omega
  refine respects_last hm₁ hfits₂ (hcount₂ id) ⟨hseat', hdish', hjin, hcomment, hsize'⟩ fun added => ?_
  cases added <;> exact ⟨_, rfl⟩

theorem respects_resDishCancel (pack : Pack) :
    B.Respected (resDishCancel fd pack) (fun _ s => Sane s) (m, t) := by
  refine respects_permitted hm hfits (fun _ => rfl) fun m₁ hm₁ => ?_
  simp only
  split
  · exact ⟨hm₁, hfits⟩
  refine respects_db hfits hcount trivial fun r t₁ hfits₁ hcount₁ => ?_
  split
  · exact ⟨hm₁, hfits₁⟩
  refine respects_last hm₁ hfits₁ (hcount₁ id) trivial fun deleted => ?_
  cases deleted <;> exact ⟨_, rfl⟩

theorem respects_resDishList (pack : Pack) :
    B.Respected (resDishList fd pack) (fun _ s => Sane s) (m, t) := by
  refine respects_permitted hm hfits (fun _ => rfl) fun m₁ hm₁ => ?_
  simp only
  split
  · exact ⟨hm₁, hfits⟩
  refine respects_db hfits hcount trivial fun r t₁ hfits₁ hcount₁ => ?_
  split
  · exact ⟨hm₁, hfits₁⟩
  refine respects_last hm₁ hfits₁ (hcount₁ id) trivial fun books => ?_
  cases books <;> exact ⟨_, rfl⟩

theorem respects_resSeatList : B.Respected (resSeatList fd) (fun _ s => Sane s) (m, t) := by
  refine respects_refFd hm fun found m₁ hm₁ _ => ?_
  cases found with
  | none => exact ⟨hm₁, hfits⟩
  | some session =>
    refine respects_dref hm₁ fun m₂ hm₂ => respects_last hm₂ hfits hcount trivial fun seats => ?_
    cases seats <;> exact ⟨_, rfl⟩

theorem respects_resCookAccept (pack : Pack) :
    B.Respected (resCookAccept fd pack) (fun _ s => Sane s) (m, t) := by
  refine respects_permitted hm hfits (fun _ => rfl) fun m₁ hm₁ => ?_
  simp only
  split
  · exact ⟨hm₁, hfits⟩
  refine respects_db hfits hcount trivial fun r t₁ hfits₁ hcount₁ => ?_
  split
  · exact ⟨hm₁, hfits₁⟩
  refine respects_last hm₁ hfits₁ (hcount₁ id) trivial fun found => ?_
  cases found <;> exact ⟨_, rfl⟩

/-- A handler of a plain request makes proper calls only, and leaves rows that fit. -/
theorem respects_handler {r : Request} (hplain : PlainRequest B.build r) :
    B.Respected r.handler (fun _ s => Sane s) (m, t) := by
  obtain ⟨hplain, hshort⟩ := hplain
  obtain ⟨kind, fd, pack, junk⟩ := r
  cases kind with
  | heartbeat => exact respects_resHeartbeat hm hfits
  | accountLogin => exact respects_resAccountLogin hm hfits hcount hplain.1 hplain.2
  | accountLogout => exact respects_resAccountLogout hm hfits
  | accountCreate =>
    obtain ⟨huid, hpwd, hnick, hcomment⟩ := hplain
    exact respects_resAccountCreate hm hfits hcount huid hpwd hnick hcomment
  | accountModifyPwd =>
    obtain ⟨hold, holdPwd, hnewPwd⟩ := hplain
    exact respects_resAccountModifyPwd hm hfits hcount hold holdPwd hnewPwd
  | accountModifyBasic =>
    obtain ⟨hnick, hcomment⟩ := hplain
    obtain ⟨hnickSize, hcommentSize⟩ := hshort
    exact respects_resAccountModifyBasic hm hfits hcount hnick hnickSize hcomment hcommentSize
  | accountDelete => exact respects_resAccountDelete hm hfits hcount hplain.1 hplain.2
  | accountList => exact respects_resAccountList hm hfits hcount
  | dishFetch => exact respects_resDishFetch hm hfits hcount pack
  | dishBook => exact respects_resDishBook hm hfits hcount hplain.2 hplain.1 hshort
  | dishCancel => exact respects_resDishCancel hm hfits hcount pack
  | dishList => exact respects_resDishList hm hfits hcount pack
  | seatList => exact respects_resSeatList hm hfits hcount
  | cookAccept => exact respects_resCookAccept hm hfits hcount pack

end Handlers

/-! ## Runs -/

/-- A request finds as many rows as an `int` can count, and is plain. -/
def PlainEvent (build : Build)
    (s : (SessionMod × (List Account × Menu × Unit)) × List (Request × Reply)) : ServerEvent → Prop
  | .request r => Countable s.1.2 ∧ PlainRequest build r
  | .disconnect _ => True

section Runs

variable {B : Backend} {s s' : SessionMod × ServerTables} {w new : List (Request × Reply)}
  {e : ServerEvent}

/-- One step of the server is the same on both levels. -/
theorem served_agrees (hs : Sane s) (hok : PlainEvent B.build (viewed s, w) e) :
    Server.served B.onTables (viewed s) e = (B.served s e).map (Prod.map viewed id) := by
  cases e with
  | request r =>
    obtain ⟨hcount, hplain⟩ := hok
    have hrespects : B.Respected r.handler (fun _ s => Sane s) s :=
      respects_handler hs.1 hs.2 hcount hplain
    have hagrees : r.handler.exec (Server.interp B.onTables) (viewed s) =
        (r.handler.exec B.interp s).map (Prod.map id viewed) :=
      hrespects.agrees fun _ _ he => interp_agrees he
    rw [Server.served, Backend.served, hagrees, Option.map_map, Option.map_map]
    rfl
  | disconnect fd =>
    rw [Server.served, Backend.served, disconnect, disconnect, Option.map_map, Option.map_map,
      Option.map_map]
    rfl

/-- The rows still fit after a step. -/
theorem sane_served (hs : Sane s) (hok : PlainEvent B.build (viewed s, w) e)
    (hstep : B.served s e = some (s', new)) : Sane s' := by
  cases e with
  | request r =>
    obtain ⟨⟨reply, s'⟩, hexec, ⟨⟩⟩ := Option.map_eq_some_iff.mp hstep
    have hrespects : B.Respected r.handler (fun _ s => Sane s) s :=
      respects_handler hs.1 hs.2 hok.1 hok.2
    exact hrespects.wlp reply s' hexec
  | disconnect fd =>
    obtain ⟨s', hdisconnect, ⟨⟩⟩ := Option.map_eq_some_iff.mp hstep
    obtain ⟨⟨b, m'⟩, hdel, rfl⟩ := Option.map_eq_some_iff.mp hdisconnect
    exact ⟨named_delAll hs.1 hdel, hs.2⟩

theorem sane_traced {x x' : (SessionMod × ServerTables) × List (Request × Reply)} (hs : Sane x.1)
    (hok : PlainEvent B.build (Prod.map viewed id x) e) (hstep : traced B.served x e = some x') :
    Sane x'.1 := by
  obtain ⟨new, hserved, -⟩ := traced_eq_some.mp hstep
  exact sane_served hs hok hserved

end Runs

/-- Over every run of plain requests and of disconnects, from rows that fit: the server over the
provider reaches the same tables as the server on tables, with the same sessions and replies,
and its rows fit. -/
theorem layers_agree {B : Backend} {freed : Session} {t₀ : ServerTables} (hfits : t₀.Fits)
    {s : SessionMod × (List Account × Menu × Unit)} {w : List (Request × Reply)} :
    Reaches (traced (Server.served B.onTables)) (PlainEvent B.build)
        ((.init freed, t₀.view), []) (s, w) ↔
      ∃ s', Reaches (traced B.served) (fun s e => PlainEvent B.build (Prod.map viewed id s) e)
          ((.init freed, t₀), []) (s', w) ∧ s'.2.Fits ∧ viewed s' = s := by
  have hinit : Sane (SessionMod.init freed, t₀) := ⟨List.forall_mem_nil _, hfits⟩
  have hruns : Reaches (traced (Server.served B.onTables)) (PlainEvent B.build)
      (Prod.map viewed id ((SessionMod.init freed, t₀), [])) (s, w) ↔
        ∃ x, Reaches (traced B.served) (fun s e => PlainEvent B.build (Prod.map viewed id s) e)
          ((.init freed, t₀), []) x ∧ Sane x.1 ∧ Prod.map viewed id x = (s, w) := by
    refine reaches_view_iff ?_ (fun _ _ _ => sane_traced) hinit
    rintro ⟨s, w⟩ e hs hok
    exact traced_view (served_agrees hs hok) w
  refine hruns.trans ⟨?_, ?_⟩
  · rintro ⟨⟨s', w'⟩, hrun, hsane, heq⟩
    obtain ⟨rfl, rfl⟩ := Prod.mk.inj heq
    exact ⟨s', hrun, hsane.2, rfl⟩
  · rintro ⟨s', hrun, hfits', rfl⟩
    -- what a user is named is known from the run
    have hsane : Sane s' := hrun.invariant (P := fun x => Sane x.1) hinit sane_traced
    exact ⟨(s', w), hrun, hsane, rfl⟩

/-- The text of a column with a whole number, and what SQLite reads of such a text. -/
def wholeColumns : BookColumns where
  double
    | .whole n => wholeToDouble (n.bmod (2 ^ 32))
    | .double x => x
  value text := wholeToDouble (strtol (.read text))
  text x :=
    let digits := integer (doubleToInt x)
    strncpy digits.bytes.length digits (lit ".0")
  rowid rows := BitVec.ofNat 64 (rows.length + 1)

/-- SQLite with rows in the order of the table, and whole numbers in the bookings. -/
def plainBackend : Backend where
  sqlite := plainSqlite
  columns := wholeColumns
  build := .debug
  conv := ⟨fun s => wholeToDouble (strtol s), doubleToInt⟩
  uninitialised := 0
  past := noRow
  broken := ⟨fun _ _ => [], fun _ rows => (false, rows)⟩
  brokenBook := fun _ _ _ _ rows => (false, rows)
  scan_eq _ := rfl
  atof_integer n hn := by
    obtain ⟨hlow, hhigh⟩ := hn
    have hread : strtol (integer n) = n := strtol_integer ⟨by omega, by omega⟩
    simp only [hread, doubleToInt_wholeToDouble hlow hhigh]
  double_finite jin hjin := by
    cases jin with
    | whole n =>
      have hlow := Int.le_bmod (x := n) (m := 2 ^ 32) (by decide)
      have hhigh := Int.bmod_lt (x := n) (m := 2 ^ 32) (by decide)
      by_cases hzero : n.bmod (2 ^ 32) = 0
      · simp only [wholeColumns, hzero]
        decide
      · obtain ⟨e, he, hmlow, hmhigh, hbits⟩ := toNat_wholeToDouble hzero (by omega)
        simp only [wholeColumns, doubleExponent, hbits]
        generalize (n.bmod (2 ^ 32)).natAbs * 2 ^ (52 - e) = m at hmlow hmhigh
        split_ifs <;> omega
    | double x =>
      simp only [Amount.finite, decide_eq_true_eq] at hjin
      simp only [wholeColumns, doubleExponent]
      omega

instance (d : List Account × Menu × Unit) : Decidable (Countable d) :=
  decidable_of_iff (d.1.length < 2 ^ 31 ∧ d.2.1.dishes.length < 2 ^ 31 ∧
      d.2.1.seats.length < 2 ^ 31 ∧ d.2.1.books.length < 2 ^ 31)
    ⟨fun h => ⟨h.1, h.2.1, h.2.2.1, h.2.2.2⟩, fun h => ⟨h.accounts, h.dishes, h.seats, h.books⟩⟩

instance : (r : Request) → Decidable (Request.Short r)
  | ⟨.accountModifyBasic, _, _, _⟩ => inferInstanceAs (Decidable (_ ∧ _))
  | ⟨.dishBook, _, _, _⟩ => inferInstanceAs (Decidable (_ ≤ _))
  | ⟨.heartbeat, _, _, _⟩ | ⟨.accountLogin, _, _, _⟩ | ⟨.accountLogout, _, _, _⟩
  | ⟨.accountCreate, _, _, _⟩ | ⟨.accountModifyPwd, _, _, _⟩ | ⟨.accountDelete, _, _, _⟩
  | ⟨.accountList, _, _, _⟩ | ⟨.dishFetch, _, _, _⟩ | ⟨.dishCancel, _, _, _⟩
  | ⟨.dishList, _, _, _⟩ | ⟨.seatList, _, _, _⟩ | ⟨.cookAccept, _, _, _⟩ =>
    inferInstanceAs (Decidable True)

instance (build : Build) (r : Request) : Decidable (PlainRequest build r) :=
  inferInstanceAs (Decidable (_ ∧ _))

instance (build : Build)
    (s : (SessionMod × (List Account × Menu × Unit)) × List (Request × Reply)) :
    (e : ServerEvent) → Decidable (PlainEvent build s e)
  | .request _ => inferInstanceAs (Decidable (_ ∧ _))
  | .disconnect _ => inferInstanceAs (Decidable True)

def smallTables : ServerTables where
  accounts := ⟨[ann], List.nodup_singleton _⟩
  dishes := ⟨(smallMenu 1 2).dishes, List.nodup_singleton _⟩
  seats := ⟨(smallMenu 1 2).seats, by decide⟩
  books := (smallMenu 1 2).books

theorem smallTables_fits : smallTables.Fits where
  accounts := List.forall_mem_singleton.mpr
    ⟨⟨by decide, by decide⟩, by decide, by decide, by decide, by decide⟩
  dishes := List.forall_mem_singleton.mpr
    ⟨⟨by decide, by decide⟩, ⟨by decide, by decide⟩, by decide, by decide, by decide,
      ⟨by decide, by decide⟩, ⟨by decide, by decide⟩⟩
  seats := by
    rintro s (_ | ⟨_, _ | ⟨_, ⟨⟩⟩⟩)
    · exact ⟨⟨by decide, by decide⟩, by decide, by decide⟩
    · exact ⟨⟨by decide, by decide⟩, by decide, by decide⟩
  books := List.forall_mem_singleton.mpr
    ⟨⟨by decide, by decide⟩, ⟨by decide, by decide⟩, ⟨by decide, by decide⟩, by decide,
      ⟨by decide, by decide⟩⟩

/-- `ann` logs in and orders, and her connection is closed. -/
def annOrders : List ServerEvent :=
  [.request (loginRequest 5 "ann" "tea" noJunk), .request ⟨.dishBook, 5, orderPack "hot", noJunk⟩,
    .disconnect 5]

theorem layers_agree_ann :
    ∃ s w, Reaches (traced plainBackend.served)
        (fun s e => PlainEvent .debug (Prod.map viewed id s) e)
        ((.init ⟨0, lit "", 0, .fd, lit "", 0⟩, smallTables), []) (s, w) ∧ s.2.Fits ∧
      w.length = 2 ∧ s.2.books.length = 2 := by
  obtain ⟨s, w, hrun, hlength, hbooks⟩ : ∃ s w,
      Reaches (traced (Server.served plainBackend.onTables)) (PlainEvent .debug)
        ((.init ⟨0, lit "", 0, .fd, lit "", 0⟩, smallTables.view), []) (s, w) ∧
      w.length = 2 ∧ s.2.2.1.books.length = 2 :=
    ⟨_, _, reaches_of_exec annOrders rfl, rfl, rfl⟩
  obtain ⟨s', hrun', hfits, rfl⟩ := (layers_agree smallTables_fits).mp hrun
  exact ⟨s', w, hrun', hfits, hlength, hbooks⟩

end Youmenu.Server.Dbp
