import Youmenu.Server.Login
import Youmenu.Server.Runs

/-!
# When a token expires

A login by password may ask for a token that is good for a number of days, and writes
the end of this time into the session of the token. No login by token reads it.

## Main definitions

* `Issue` — a token that was handed out, with the time that it was promised for.
* `Timed` — runs of the server with a clock and all tokens that were handed out.
* `ExpiresInTime` — what is asked of a login by token.
* `Remembered` — the server still knows the token.
-/

namespace Youmenu.Server

open Eventpack Transition Program

/-- `time` is in seconds and `days` is the parameter `token_expire`. -/
structure Issue where
  token : CString
  time : ℤ
  days : ℤ

namespace Issue

/-- The first second at which the token is not good any more. -/
def deadline (i : Issue) : ℤ := i.time + i.days * 86400

/-- What is written into the session: the product is computed in `int`. -/
def timeExpired (i : Issue) : ℤ := i.time + (BitVec.ofInt 32 (i.days * 24 * 60 * 60)).toInt

/-- A value of type `int` from 1 on. -/
def Valid (i : Issue) : Prop := 0 < i.days ∧ i.days < 2 ^ 31

/-- The product overflows from the day 24856 on. -/
theorem timeExpired_eq_deadline_iff {i : Issue} (hi : i.Valid) :
    i.timeExpired = i.deadline ↔ i.days ≤ 24855 := by
  obtain ⟨hpos, hlt⟩ := hi
  rw [timeExpired, deadline, BitVec.toInt_ofInt, Int.bmod_def]
  split
  · omega
  · omega

end Issue

/-- The token that a login hands out at a time. -/
def issuedBy (r : Request) (time : ℤ) (reply : Reply) : List Issue :=
  if r.kind = .accountLogin ∧ appendString "token" r.junk.guid ∈ reply then
    [⟨r.junk.guid, time, (loginParam r.junk r.pack).tokenExpire⟩]
  else []

/-- The server with a clock; `issues` has all tokens so far. -/
structure Timed (δ : Type) where
  mod : SessionMod
  data : δ
  now : ℤ
  issues : List Issue

structure TimedEvent where
  time : ℤ
  event : ServerEvent

namespace Timed

variable {δ : Type}

def init (freed : Session) (d : δ) (now : ℤ) : Timed δ := ⟨.init freed, d, now, []⟩

/-- The clock does not go back. -/
def step (db : Db δ) (s : Timed δ) (e : TimedEvent) : Option (Timed δ) :=
  if s.now ≤ e.time then
    match e.event with
    | .request r =>
      (r.handler.exec (interp db) (s.mod, s.data)).map fun x =>
        ⟨x.2.1, x.2.2, e.time, s.issues ++ issuedBy r e.time x.1⟩
    | .disconnect fd =>
      (disconnect (s.mod, s.data) fd).map fun x => ⟨x.1, x.2, e.time, s.issues⟩
  else none

/-- A step with the clock is one of the server. -/
theorem serverStep_of_step {db : Db δ} {s s' : Timed δ} {e : TimedEvent}
    (hstep : s.step db e = some s') :
    serverStep db (s.mod, s.data) e.event = some (s'.mod, s'.data) ∧ s.now ≤ e.time ∧
      s'.now = e.time := by
  unfold step at hstep
  split_ifs at hstep with htime
  obtain ⟨time, r | fd⟩ := e
  · obtain ⟨x, hexec, rfl⟩ := Option.map_eq_some_iff.mp hstep
    refine ⟨?_, htime, rfl⟩
    rw [serverStep, hexec]
    rfl
  · obtain ⟨x, hdel, rfl⟩ := Option.map_eq_some_iff.mp hstep
    exact ⟨hdel, htime, rfl⟩

end Timed

/-! ## The tokens of a run -/

theorem token_ne_append (guid : CString) (r : AccountResult) :
    appendString "token" guid ∉ [r.append] := by
  simp [AccountResult.append, appendInt, appendString]

theorem token_ne_loginResult (guid : CString) (conflict : Bool) :
    appendString "token" guid ≠ loginResult conflict := by
  cases conflict <;> nofun

/-- No reply of a login by password has a token that was not asked for. -/
theorem returns_loginByPwd (junk : Junk) (fd : ℕ) (p : LoginParam) :
    (loginByPwd junk fd p).Returns fun reply =>
      appendString "token" junk.guid ∈ reply → 0 < p.tokenExpire := by
  refine returns_perform fun user => ?_
  split
  · exact fun htoken => (token_ne_append _ _ htoken).elim
  refine returns_perform fun known => ?_
  split
  · refine (returns_true _).bind fun conflict _ => returns_perform fun account => ?_
    split
    · exact fun htoken => (token_ne_append _ _ htoken).elim
    refine returns_perform fun added => ?_
    simp only
    split
    · next hexpire => exact (returns_true _).bind fun token _ _ => hexpire
    · intro htoken
      have hnick : lit "token" ≠ lit "nick" := by decide
      have hcomment : lit "token" ≠ lit "comment" := by decide
      simp [appendString, appendInt, hnick, hcomment] at htoken
      exact (token_ne_loginResult _ _ htoken).elim
  · exact fun htoken => (token_ne_append _ _ htoken).elim

theorem returns_loginByToken (fd : ℕ) (token guid : CString) :
    (loginByToken fd token).Returns fun reply => appendString "token" guid ∉ reply := by
  refine returns_perform fun old => ?_
  split
  · exact token_ne_append _ _
  refine returns_perform fun s => returns_perform fun _ => ?_
  refine (returns_true _).bind fun conflict _ => ?_
  refine returns_perform fun added => returns_perform fun account => ?_
  split
  · exact token_ne_append _ _
  · intro htoken
    have huid : lit "token" ≠ lit "uid" := by decide
    have hnick : lit "token" ≠ lit "nick" := by decide
    have hcomment : lit "token" ≠ lit "comment" := by decide
    simp [appendString, appendInt, huid, hnick, hcomment] at htoken
    exact token_ne_loginResult _ _ htoken

theorem returns_resAccountLogin (junk : Junk) (fd : ℕ) (pack : Pack) :
    (resAccountLogin junk fd pack).Returns fun reply =>
      appendString "token" junk.guid ∈ reply → 0 < (loginParam junk pack).tokenExpire := by
  simp only [resAccountLogin]
  split_ifs
  · exact returns_loginByPwd junk fd _
  · exact (returns_loginByToken fd _ junk.guid).mono fun reply hno htoken => (hno htoken).elim
  · exact fun htoken => (token_ne_append _ _ htoken).elim

theorem doubleToInt_lt (d : BitVec 64) : doubleToInt d < 2 ^ 31 := by
  simp only [doubleToInt]
  split_ifs with hsmall hrange hneg
  · decide
  · have := Int.natCast_nonneg ((d.toNat % 2 ^ 52 + 2 ^ 52) /
      2 ^ (52 - (d.toNat / 2 ^ 52 % 2 ^ 11 - 1023)))
    omega
  · -- the quotient is largest for the largest exponent
    have hpow : 2 ^ 22 ≤ 2 ^ (52 - (d.toNat / 2 ^ 52 % 2 ^ 11 - 1023)) :=
      Nat.pow_le_pow_right (by decide) (by omega)
    have hdiv : (d.toNat % 2 ^ 52 + 2 ^ 52) / 2 ^ (52 - (d.toNat / 2 ^ 52 % 2 ^ 11 - 1023)) ≤
        (d.toNat % 2 ^ 52 + 2 ^ 52) / 2 ^ 22 := Nat.div_le_div_left hpow (by decide)
    have hlt : (d.toNat % 2 ^ 52 + 2 ^ 52) / 2 ^ 22 < 2 ^ 31 := by omega
    exact_mod_cast hdiv.trans_lt hlt
  · decide

theorem PackValue.toInt_lt (v : PackValue) : v.toInt < 2 ^ 31 := by
  cases v with
  | int value => exact BitVec.toInt_lt
  | long value => exact BitVec.toInt_lt
  | double value => exact doubleToInt_lt value
  | _ =>
    simp only [PackValue.toInt]
    decide

/-- The parameter is an `int`. -/
theorem tokenExpire_lt (junk : Junk) (pack : Pack) : (loginParam junk pack).tokenExpire < 2 ^ 31 := by
  unfold loginParam
  refine List.foldlRecOn _ _ (motive := fun p : LoginParam => p.tokenExpire < 2 ^ 31) (by decide) ?_
  intro p hp f _
  split_ifs
  · exact hp
  · exact hp
  · exact hp
  · exact f.value.toInt_lt
  · exact hp

/-- The module is settled or locked for good, and the tokens so far were promised for a
positive number of days. -/
structure Timed.Sound {δ : Type} (s : Timed δ) : Prop where
  settled : Settled (fun _ _ _ => True) s.mod ∨ s.mod.locked = true
  issues : ∀ i ∈ s.issues, i.Valid ∧ i.time ≤ s.now

section Runs

variable {ρ : Type} {sql : BrokenSql} {encryptPwd : CString → CString} {other : Db ρ}
  {s s' : Timed (List Account × ρ)}

theorem serverStep_settled {m : SessionMod} {d : List Account × ρ}
    (hm : Settled (fun _ _ _ => True) m ∨ m.locked = true) {e : ServerEvent}
    {s' : SessionMod × List Account × ρ}
    (hstep : serverStep (accountDb sql encryptPwd other) (m, d) e = some s') :
    Settled (fun _ _ _ => True) s'.1 ∨ s'.1.locked = true := by
  rcases hm with hm | hlocked
  · cases e with
    | request r =>
      obtain ⟨⟨reply, s⟩, hexec, rfl⟩ := Option.map_eq_some_iff.mp hstep
      exact (r.wp_handler_settled hm fun _ _ _ => trivial).of_exec hexec
    | disconnect fd =>
      simp only [serverStep, hm.delAll, Option.map_some] at hstep
      obtain rfl := Option.some.inj hstep
      exact .inl (hm.remove _)
  · obtain rfl := serverStep_locked hlocked hstep
    exact .inr hlocked

/-- The tokens that a step hands out. -/
theorem issuedBy_valid {δ : Type} {db : Db δ} {r : Request} {time : ℤ} {reply : Reply}
    {x y : SessionMod × δ} (hexec : r.handler.exec (interp db) x = some (reply, y)) {i : Issue}
    (hi : i ∈ issuedBy r time reply) : i.Valid ∧ i.time = time := by
  obtain ⟨kind, fd, pack, junk⟩ := r
  unfold issuedBy at hi
  split_ifs at hi with hissued
  · obtain ⟨rfl, htoken⟩ := hissued
    obtain rfl := List.mem_singleton.mp hi
    have hexpire := (returns_resAccountLogin junk fd pack).exec hexec htoken
    exact ⟨⟨hexpire, tokenExpire_lt junk pack⟩, rfl⟩
  · exact absurd hi List.not_mem_nil

theorem Timed.Sound.step (h : s.Sound) {e : TimedEvent}
    (hstep : s.step (accountDb sql encryptPwd other) e = some s') : s'.Sound := by
  obtain ⟨hserver, htime, hnow⟩ := serverStep_of_step hstep
  refine ⟨serverStep_settled h.settled hserver, ?_⟩
  have hold : ∀ i ∈ s.issues, i.Valid ∧ i.time ≤ s'.now := by
    intro i hi
    obtain ⟨hvalid, hle⟩ := h.issues i hi
    exact ⟨hvalid, by omega⟩
  rw [Timed.step, if_pos htime] at hstep
  obtain ⟨time, r | fd⟩ := e
  · obtain ⟨⟨reply, x⟩, hexec, rfl⟩ := Option.map_eq_some_iff.mp hstep
    intro i hi
    rcases List.mem_append.mp hi with hi | hi
    · exact hold i hi
    · obtain ⟨hvalid, htime'⟩ := issuedBy_valid hexec hi
      exact ⟨hvalid, htime'.le⟩
  · obtain ⟨x, -, rfl⟩ := Option.map_eq_some_iff.mp hstep
    exact hold

theorem sound_of_timed {freed : Session} {d₀ : List Account × ρ} {now₀ : ℤ}
    (h : Reaches (Timed.step (accountDb sql encryptPwd other)) anyStep (.init freed d₀ now₀) s) :
    s.Sound :=
  h.invariant (P := Timed.Sound) ⟨.inl (.init _ _), nofun⟩ fun hs _ hstep => hs.step hstep

end Runs

/-! ## Logins by token -/

/-- The login is by this token. -/
def TokenLogin (p : LoginParam) (token : CString) : Prop :=
  ¬ (validUid p.uid && validPwd p.pwd) ∧ p.token = token

/-- If the login is accepted, the token has not expired at its time. -/
def ExpiresInTime {δ : Type} (db : Db δ) (s : Timed δ) (i : Issue) (time : ℤ) (junk : Junk)
    (fd : ℕ) (pack : Pack) : Prop :=
  ∀ reply s', (resAccountLogin junk fd pack).exec (interp db) (s.mod, s.data) = some (reply, s') →
    LoggedIn reply → time < i.deadline

/-- The token has a session, its user has an account, and no handler has kept the lock. -/
def Remembered (sql : BrokenSql) (rows : List Account) (m : SessionMod) (token : CString) : Prop :=
  m.locked = false ∧ validToken token ∧
    ∃ n, m.sessionList.find? (SessionNode.hasToken token) = some n ∧
      (dbAccountGetOne sql rows n.session.uid).isSome

section TokenLogins

variable {ρ : Type} {sql : BrokenSql} {encryptPwd : CString → CString} {other : Db ρ}
  {m : SessionMod} {rows : List Account} {o : ρ} {junk : Junk} {fd : ℕ} {pack : Pack}

/-- Nothing but the session and the account decides about a login by token. -/
theorem loggedIn_iff_remembered (hm : Settled (fun _ _ _ => True) m) {token : CString}
    (hlogin : TokenLogin (loginParam junk pack) token) :
    (resAccountLogin junk fd pack).wp (interp (accountDb sql encryptPwd other))
      (fun reply _ => LoggedIn reply ↔ Remembered sql rows m token) (m, rows, o) := by
  obtain ⟨hpwd, rfl⟩ := hlogin
  simp only [resAccountLogin, if_neg hpwd]
  split_ifs with htoken
  · cases hn : m.sessionList.find? (SessionNode.hasToken (loginParam junk pack).token) with
    | none =>
      refine wp_refToken hm (fun _ => ?_) fun n _ hfind => ?_
      · exact iff_of_false (not_loggedIn (by decide) (by decide)) (by simp [Remembered, hn])
      · exact absurd (hn.symm.trans hfind) (by simp)
    | some n =>
      refine (wp_loginByToken_found hm hn).mono fun reply s hfound => ?_
      obtain ⟨hin, -⟩ := hfound
      simp [hin, Remembered, hm.unlocked, htoken, hn]
  · exact iff_of_false (not_loggedIn (by decide) (by decide)) (by simp [Remembered, htoken])

theorem not_loggedIn_of_locked {δ : Type} {db : Db δ} {d : δ} (hlocked : m.locked = true)
    (hpwd : ¬ (validUid (loginParam junk pack).uid && validPwd (loginParam junk pack).pwd))
    {reply : Reply} {s' : SessionMod × δ}
    (hexec : (resAccountLogin junk fd pack).exec (interp db) (m, d) = some (reply, s')) :
    ¬ LoggedIn reply := by
  simp only [resAccountLogin, if_neg hpwd] at hexec
  split_ifs at hexec with htoken
  · obtain ⟨⟨old, s₁⟩, hcall, hrest⟩ := Option.bind_eq_some_iff.mp hexec
    obtain ⟨⟨old', m'⟩, href, heq⟩ := Option.map_eq_some_iff.mp hcall
    obtain ⟨rfl, rfl⟩ := Prod.mk.inj heq
    unfold SessionMod.refToken at href
    split at href
    · obtain ⟨rfl, rfl⟩ := Prod.mk.inj (Option.some.inj href)
      obtain ⟨rfl, -⟩ := Prod.mk.inj (Option.some.inj hrest)
      exact not_loggedIn (by decide) (by decide)
    · simp [SessionMod.lock, hlocked] at href
  · obtain ⟨rfl, -⟩ := Prod.mk.inj (Option.some.inj hexec)
    exact not_loggedIn (by decide) (by decide)

theorem expiresInTime_iff {s : Timed (List Account × ρ)} (hs : s.Sound) {i : Issue} {time : ℤ}
    (hlogin : TokenLogin (loginParam junk pack) i.token) :
    ExpiresInTime (accountDb sql encryptPwd other) s i time junk fd pack ↔
      (Remembered sql s.data.1 s.mod i.token → time < i.deadline) := by
  rcases hs.settled with hm | hlocked
  · have hwp : (resAccountLogin junk fd pack).wp (interp (accountDb sql encryptPwd other))
        (fun reply _ => LoggedIn reply ↔ Remembered sql s.data.1 s.mod i.token) (s.mod, s.data) :=
      loggedIn_iff_remembered hm hlogin
    obtain ⟨reply, s', hexec, hin⟩ := wp_iff_exec.mp hwp
    constructor
    · exact fun hexpires hknown => hexpires reply s' hexec (hin.mpr hknown)
    · intro hknown reply' s'' hexec' hin'
      exact hknown ((hwp.of_exec hexec').mp hin')
  · constructor
    · rintro _ ⟨hunlocked, -⟩
      simp [hlocked] at hunlocked
    · intro _ reply s' hexec hin
      exact (not_loggedIn_of_locked hlocked hlogin.1 hexec hin).elim

end TokenLogins

/-- In every run, and whatever else happened since a token was handed out for a number of
days: a later login with this token is accepted only in time exactly if the login is in
time or the server does not know the token any more. -/
theorem token_expires_iff {ρ : Type} {sql : BrokenSql} {encryptPwd : CString → CString}
    {other : Db ρ} {freed : Session} {d₀ : List Account × ρ} {now₀ : ℤ}
    {s : Timed (List Account × ρ)}
    (h : Reaches (Timed.step (accountDb sql encryptPwd other)) anyStep (.init freed d₀ now₀) s)
    {i : Issue} (hi : i ∈ s.issues) {time : ℤ} (htime : s.now ≤ time) {junk : Junk} (fd : ℕ)
    {pack : Pack} (hlogin : TokenLogin (loginParam junk pack) i.token) :
    0 < i.days ∧ i.time ≤ time ∧
      (ExpiresInTime (accountDb sql encryptPwd other) s i time junk fd pack ↔
        (Remembered sql s.data.1 s.mod i.token → time < i.deadline)) := by
  have hs := sound_of_timed h
  obtain ⟨hvalid, hle⟩ := hs.issues i hi
  exact ⟨hvalid.1, hle.trans htime, expiresInTime_iff hs hlogin⟩

/-- Of every token of every run, the end that is written into its session is the promised
one up to 24855 days. -/
theorem timeExpired_of_run {ρ : Type} {sql : BrokenSql} {encryptPwd : CString → CString}
    {other : Db ρ} {freed : Session} {d₀ : List Account × ρ} {now₀ : ℤ}
    {s : Timed (List Account × ρ)}
    (h : Reaches (Timed.step (accountDb sql encryptPwd other)) anyStep (.init freed d₀ now₀) s)
    {i : Issue} (hi : i ∈ s.issues) : i.timeExpired = i.deadline ↔ i.days ≤ 24855 :=
  Issue.timeExpired_eq_deadline_iff ((sound_of_timed h).issues i hi).1

/-- `ann` asks for a token that is good for one day. -/
def annAsksToken : TimedEvent :=
  ⟨0, .request ⟨.accountLogin, 5, some [⟨lit "uid", .string (lit "ann")⟩,
    ⟨lit "pwd", .string (lit "tea")⟩, ⟨lit "token_expire", .int 1⟩],
    { noJunk with guid := annToken }⟩⟩

theorem tokenLogin_ann :
    TokenLogin (loginParam noJunk (some [⟨lit "token", .string annToken⟩])) annToken :=
  ⟨by decide, rfl⟩

/-- She uses it after an hour. -/
theorem token_expires_ann :
    ∃ s, Reaches (Timed.step smallDb) anyStep
      (.init ⟨0, lit "", 0, .fd, lit "", 0⟩ ([ann], ()) 0) s ∧ ⟨annToken, 0, 1⟩ ∈ s.issues ∧
        ExpiresInTime smallDb s ⟨annToken, 0, 1⟩ 3600 noJunk 6
          (some [⟨lit "token", .string annToken⟩]) := by
  have hrun : ∃ s, Reaches (Timed.step smallDb) anyStep
      (.init ⟨0, lit "", 0, .fd, lit "", 0⟩ ([ann], ()) 0) s ∧
        s.issues = [⟨annToken, 0, 1⟩] ∧ s.now = 0 :=
    ⟨_, reaches_of_exec [annAsksToken] rfl, rfl, rfl⟩
  obtain ⟨s, hreaches, hissues, hnow⟩ := hrun
  have hi : ⟨annToken, 0, 1⟩ ∈ s.issues := by simp [hissues]
  have htime : s.now ≤ 3600 := by omega
  have hiff := token_expires_iff hreaches hi htime 6 tokenLogin_ann
  exact ⟨s, hreaches, hi, hiff.2.2.mpr fun _ => by decide⟩

/-- She uses it after a week. -/
theorem token_accepted_late :
    ∃ s, Reaches (Timed.step smallDb) anyStep
      (.init ⟨0, lit "", 0, .fd, lit "", 0⟩ ([ann], ()) 0) s ∧ ⟨annToken, 0, 1⟩ ∈ s.issues ∧
        ¬ ExpiresInTime smallDb s ⟨annToken, 0, 1⟩ 604800 noJunk 6
          (some [⟨lit "token", .string annToken⟩]) := by
  refine ⟨_, reaches_of_exec [annAsksToken] rfl, List.mem_singleton.mpr rfl, fun h => ?_⟩
  have hlate := h _ _ rfl (.inr rfl)
  exact absurd hlate (by decide)

end Youmenu.Server
