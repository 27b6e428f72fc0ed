import Youmenu.Server.References

/-!
# The profile of a user

`res_account_modify_basic` is to replace the nick and the comment of the user of the session,
or to leave the table alone. It has 17 bytes for each of the two, where the client admits 64
and 256, and makes two updates, of which the second may fail.

## Main definitions

* `updatesMayFail` — a database whose updates may fail.
* `ModifyBasicRight` — what is asked of the handler.
* `ProfileKept` — when it holds.
-/

namespace Youmenu.Server

open Eventpack Program

/-- The rows of the user are changed. -/
def setRow (rows : List Account) (uid : CString) (f : Account → Account) : List Account :=
  rows.map fun a => if a.uid = uid then f a else a

/-- The table with a new profile for one user. -/
def withProfile (rows : List Account) (uid nick comment : CString) : List Account :=
  setRow rows uid fun a => { a with nick := nick, comment := comment }

/-- What `client_account_modify_basic` sends. -/
def profilePack (nick comment : CString) : Pack :=
  some [⟨lit "nick", .string nick⟩, ⟨lit "comment", .string comment⟩]

/-- An update may fail, and leaves the table alone then. -/
def updatesMayFail {δ : Type} (fails : DbOp → δ → Bool) (db : Db δ) : Db δ
  | .accountUpdateNick uid nick, d =>
    if fails (.accountUpdateNick uid nick) d then (false, d) else db (.accountUpdateNick uid nick) d
  | .accountUpdateComment uid comment, d =>
    if fails (.accountUpdateComment uid comment) d then (false, d)
    else db (.accountUpdateComment uid comment) d
  | op, d => db op d

/-- The handler returns. If the answer is `account_r_ok`, the row of the user of the session has
the new nick and comment and the rest of the table is as it was; otherwise all of it is. -/
def ModifyBasicRight {ρ : Type} (db : Db (List Account × ρ)) (s : SessionMod × List Account × ρ)
    (junk : Junk) (fd : ℕ) (nick comment : CString) : Prop :=
  ∃ reply m' rows' o', (resAccountModifyBasic junk fd (profilePack nick comment)).exec (interp db)
      s = some (reply, m', rows', o') ∧
    (replyResult reply = some (AccountResult.ok.ctorIdx : ℤ) →
      ∃ n ∈ s.1.sessionList, n.session.fd = fd ∧
        rows' = withProfile s.2.1 n.session.uid nick comment) ∧
    (replyResult reply ≠ some (AccountResult.ok.ctorIdx : ℤ) → rows' = s.2.1)

/-- The array of 17 bytes holds the string, or the stack goes on with the rest of it. -/
def Kept (s behind : CString) : Prop :=
  s.bytes.length < 17 ∨ behind.bytes = s.bytes.drop 17

/-- What is in an array of `res_account_modify_basic`. -/
def Junk.array (junk : Junk) (name : String) (s : CString) : CString :=
  strncpy 17 s (junk.behind name)

/-- The first update fails; or it succeeds, and then either the second fails and the first has
changed nothing, or it succeeds as well and the arrays held the strings for the row of the
user. No quote gets into a statement, not even from behind an array. -/
def ProfileKept {ρ : Type} (fails : DbOp → List Account × ρ → Bool) (rows : List Account) (o : ρ)
    (junk : Junk) (uid nick comment : CString) : Prop :=
  fails (.accountUpdateNick uid (junk.array "nick" nick)) (rows, o) ∨
    QuoteFree uid ∧ QuoteFree (junk.array "nick" nick) ∧
      if fails (.accountUpdateComment uid (junk.array "comment" comment))
          (setRow rows uid fun a => { a with nick := junk.array "nick" nick }, o) then
        ∀ a ∈ rows, a.uid = uid → a.nick = junk.array "nick" nick
      else QuoteFree (junk.array "comment" comment) ∧ ∀ a ∈ rows, a.uid = uid →
        Kept nick (junk.behind "nick") ∧ Kept comment (junk.behind "comment")

instance (s behind : CString) : Decidable (Kept s behind) := inferInstanceAs (Decidable (_ ∨ _))

instance {ρ : Type} (fails : DbOp → List Account × ρ → Bool) (rows : List Account) (o : ρ)
    (junk : Junk) (uid nick comment : CString) :
    Decidable (ProfileKept fails rows o junk uid nick comment) :=
  inferInstanceAs (Decidable (_ ∨ _))

theorem array_eq_self_iff {junk : Junk} {name : String} {s : CString} :
    junk.array name s = s ↔ Kept s (junk.behind name) := by
  unfold Junk.array strncpy Kept
  split_ifs with hs
  · exact iff_of_true rfl (.inl hs)
  · rw [or_iff_right hs, CString.ext_iff]
    nth_rewrite 2 [← List.take_append_drop 17 s.bytes]
    exact List.append_cancel_left_eq _ _ _ |>.to_iff

section Rows

variable {rows : List Account} {uid : CString} {f g : Account → Account}

theorem setRow_eq_iff :
    setRow rows uid f = setRow rows uid g ↔ ∀ a ∈ rows, a.uid = uid → f a = g a := by
  rw [setRow, setRow, List.map_inj_left]
  refine forall₂_congr fun a _ => ?_
  split_ifs with huid <;> simp [huid]

theorem setRow_id : setRow rows uid id = rows := by
  simp [setRow]

theorem setRow_setRow (hf : ∀ a, (f a).uid = a.uid) :
    setRow (setRow rows uid f) uid g = setRow rows uid fun a => g (f a) := by
  rw [setRow, setRow, setRow, List.map_map]
  refine List.map_congr_left fun a _ => ?_
  simp only [Function.comp]
  split_ifs with huid hne
  · rfl
  · exact absurd ((hf a).trans huid) hne
  · rfl

end Rows

section ModifyBasic

variable {ρ δ : Type} {m : SessionMod} {junk : Junk} {fd : ℕ} {nick comment : CString}

theorem modifyBasicParam_profilePack : modifyBasicParam junk (profilePack nick comment) =
    ⟨junk.array "nick" nick, junk.array "comment" comment⟩ := rfl

/-- What the two updates come to. -/
theorem wp_resAccountModifyBasic_eq (hm : Settled (fun _ _ _ => True) m) {db : Db δ} {d : δ}
    {pack : Pack} {Q : Reply → SessionMod × δ → Prop}
    (hnone : (∀ n ∈ m.sessionList, n.session.fd ≠ fd) →
      Q [AccountResult.sessionExpired.append] (m, d))
    (hsome : ∀ n ∈ m.sessionList, n.session.fd = fd →
      let p := modifyBasicParam junk pack
      let r := db (.accountUpdateNick n.session.uid p.nick) d
      let r' := db (.accountUpdateComment n.session.uid p.comment) r.2
      if r.1 then
        if r'.1 then Q [AccountResult.ok.append] (m.hold n.addr, r'.2)
        else Q [AccountResult.serviceUnavailable.append] (m.hold n.addr, r'.2)
      else Q [AccountResult.serviceUnavailable.append] (m.hold n.addr, r.2)) :
    (resAccountModifyBasic junk fd pack).wp (interp db) Q (m, d) := by
  unfold resAccountModifyBasic
  dsimp only
  refine wp_refFd hm hnone fun n hn hfd => ?_
  have hsome := hsome n hn hfd
  dsimp only at hsome
  rw [wp_read hm hn]
  refine wp_db.mpr ?_
  split_ifs at hsome with hnick hcomment
  · rw [if_pos hnick, wp_read hm hn]
    refine wp_db.mpr ?_
    rw [if_pos hcomment]
    exact hsome
  · rw [if_pos hnick, wp_read hm hn]
    refine wp_db.mpr ?_
    rw [if_neg hcomment]
    exact hsome
  · rw [if_neg hnick]
    exact hsome

/-- The two updates of a user, with the strings of the arrays, have the right effect. -/
def UpdatesRight (db : Db (List Account × ρ)) (d : List Account × ρ)
    (uid nick comment arrayNick arrayComment : CString) : Prop :=
  let r := db (.accountUpdateNick uid arrayNick) d
  let r' := db (.accountUpdateComment uid arrayComment) r.2
  if r.1 then
    if r'.1 then r'.2.1 = withProfile d.1 uid nick comment else r'.2.1 = d.1
  else r.2.1 = d.1

theorem modifyBasicRight_iff (hm : Settled (fun _ _ _ => True) m) {db : Db (List Account × ρ)}
    {d : List Account × ρ} : ModifyBasicRight db (m, d) junk fd nick comment ↔
      ∀ n ∈ m.sessionList, n.session.fd = fd → UpdatesRight db d n.session.uid nick comment
        (junk.array "nick" nick) (junk.array "comment" comment) := by
  constructor
  · rintro ⟨reply, m', rows', o', hexec, hok, hfailed⟩ n hn hfd
    have hwp : (resAccountModifyBasic junk fd (profilePack nick comment)).wp (interp db)
        (fun reply s => (replyResult reply = some (AccountResult.ok.ctorIdx : ℤ) →
          s.2.1 = withProfile d.1 n.session.uid nick comment) →
            (replyResult reply ≠ some (AccountResult.ok.ctorIdx : ℤ) → s.2.1 = d.1) →
              UpdatesRight db d n.session.uid nick comment (junk.array "nick" nick)
                (junk.array "comment" comment)) (m, d) := by
      refine wp_resAccountModifyBasic_eq hm (fun hnone => (hnone n hn hfd).elim)
        fun n' hn' hfd' => ?_
      obtain rfl := hm.session_unique hn' hfd' hn hfd
      rw [modifyBasicParam_profilePack]
      unfold UpdatesRight
      dsimp only
      split_ifs with hnick hcomment
      · exact fun hok _ => hok rfl
      · exact fun _ hfailed => hfailed (by decide)
      · exact fun _ hfailed => hfailed (by decide)
    refine hwp.of_exec hexec (fun hreply => ?_) hfailed
    obtain ⟨n', hn', hfd', hrows⟩ := hok hreply
    rw [hrows, hm.session_unique hn' hfd' hn hfd]
  · intro hright
    have hwp : (resAccountModifyBasic junk fd (profilePack nick comment)).wp (interp db)
        (fun reply s => (replyResult reply = some (AccountResult.ok.ctorIdx : ℤ) →
          ∃ n ∈ m.sessionList, n.session.fd = fd ∧
            s.2.1 = withProfile d.1 n.session.uid nick comment) ∧
          (replyResult reply ≠ some (AccountResult.ok.ctorIdx : ℤ) → s.2.1 = d.1)) (m, d) := by
      refine wp_resAccountModifyBasic_eq hm (fun _ => ⟨fun h => absurd h (by decide), fun _ => rfl⟩)
        fun n hn hfd => ?_
      have hupdates := hright n hn hfd
      rw [modifyBasicParam_profilePack]
      unfold UpdatesRight at hupdates
      dsimp only at hupdates ⊢
      split_ifs at hupdates ⊢ with hnick hcomment
      · exact ⟨fun _ => ⟨n, hn, hfd, hupdates⟩, fun h => absurd rfl h⟩
      · exact ⟨fun h => absurd h (by decide), fun _ => hupdates⟩
      · exact ⟨fun h => absurd h (by decide), fun _ => hupdates⟩
    obtain ⟨reply, ⟨m', rows', o'⟩, hexec, hok, hfailed⟩ := wp_iff_exec.mp hwp
    exact ⟨reply, m', rows', o', hexec, hok, hfailed⟩

/-! ### The updates -/

section Updates

variable {sql : BrokenSql} {encryptPwd : CString → CString} {other : Db ρ}
  {fails : DbOp → List Account × ρ → Bool} {rows : List Account} {o : ρ}
  {uid arrayNick arrayComment : CString}

theorem dbAccountUpdateNick_eq (huid : QuoteFree uid) (hnick : QuoteFree arrayNick) :
    dbAccountUpdateNick sql rows uid arrayNick =
      (true, setRow rows uid fun a => { a with nick := arrayNick }) := by
  simp [dbAccountUpdateNick, updateColumn, huid, hnick, setRow]

theorem dbAccountUpdateComment_eq (huid : QuoteFree uid) (hcomment : QuoteFree arrayComment) :
    dbAccountUpdateComment sql rows uid arrayComment =
      (true, setRow rows uid fun a => { a with comment := arrayComment }) := by
  simp [dbAccountUpdateComment, updateColumn, huid, hcomment, setRow]

/-- A statement that a quote has broken may do anything, such as to add a row. -/
def addsRow : BrokenSql where
  query _ _ := []
  exec _ rows := (false, ⟨0, lit "", lit "", lit "", lit ""⟩ :: rows)

theorem dbAccountUpdateNick_broken (h : ¬ (QuoteFree uid ∧ QuoteFree arrayNick)) :
    dbAccountUpdateNick addsRow rows uid arrayNick =
      (false, ⟨0, lit "", lit "", lit "", lit ""⟩ :: rows) := by
  rw [dbAccountUpdateNick, updateColumn, if_neg (by simpa [and_comm] using h)]
  rfl

theorem dbAccountUpdateComment_broken (h : ¬ QuoteFree arrayComment) :
    dbAccountUpdateComment addsRow rows uid arrayComment =
      (false, ⟨0, lit "", lit "", lit "", lit ""⟩ :: rows) := by
  rw [dbAccountUpdateComment, updateColumn, if_neg (by simp [h])]
  rfl

theorem setNick_eq_self_iff : (setRow rows uid fun a => { a with nick := arrayNick }) = rows ↔
    ∀ a ∈ rows, a.uid = uid → a.nick = arrayNick := by
  have hself : (setRow rows uid fun a => { a with nick := arrayNick }) = setRow rows uid id ↔ _ :=
    setRow_eq_iff
  rw [setRow_id] at hself
  refine hself.trans (forall₂_congr fun a _ => imp_congr_right fun _ => ?_)
  obtain ⟨type, uid, pwd, nick, comment⟩ := a
  simp [eq_comm]

/-- Both columns are written. -/
theorem setBoth_eq_iff : (setRow (setRow rows uid fun a => { a with nick := arrayNick }) uid
    fun a => { a with comment := arrayComment }) = withProfile rows uid nick comment ↔
      ∀ a ∈ rows, a.uid = uid → arrayNick = nick ∧ arrayComment = comment := by
  have hboth : (setRow (setRow rows uid fun a => { a with nick := arrayNick }) uid
      fun a => { a with comment := arrayComment }) =
        setRow rows uid fun a => { a with nick := arrayNick, comment := arrayComment } :=
    setRow_setRow fun _ => rfl
  rw [hboth, withProfile, setRow_eq_iff]
  refine forall₂_congr fun a _ => imp_congr_right fun _ => ?_
  simp

theorem updatesRight_iff : (∀ sql, UpdatesRight (updatesMayFail fails
    (accountDb sql encryptPwd other)) (rows, o) uid nick comment
      (junk.array "nick" nick) (junk.array "comment" comment)) ↔
        ProfileKept fails rows o junk uid nick comment := by
  have hmore : ∀ a : Account, a :: rows ≠ rows := fun a => List.cons_ne_self a rows
  have hsql : Nonempty BrokenSql := ⟨addsRow⟩
  unfold UpdatesRight ProfileKept updatesMayFail accountDb
  simp only [← array_eq_self_iff]
  generalize junk.array "nick" nick = arrayNick
  generalize junk.array "comment" comment = arrayComment
  by_cases hnick : fails (.accountUpdateNick uid arrayNick) (rows, o) = true
  · simp [hnick]
  simp only [hnick, Bool.false_eq_true, if_false, false_or]
  by_cases hquote : QuoteFree uid ∧ QuoteFree arrayNick
  · simp only [dbAccountUpdateNick_eq hquote.1 hquote.2, hquote, if_true, true_and]
    by_cases hcomment : fails (.accountUpdateComment uid arrayComment)
        (setRow rows uid fun a => { a with nick := arrayNick }, o) = true
    · simp [hcomment, setNick_eq_self_iff]
    simp only [hcomment, Bool.false_eq_true, if_false]
    by_cases hquote' : QuoteFree arrayComment
    · simp [dbAccountUpdateComment_eq hquote.1 hquote', hquote', setBoth_eq_iff]
    · refine iff_of_false (fun h => ?_) fun h => hquote' h.1
      have hbroken := h addsRow
      rw [dbAccountUpdateComment_broken hquote'] at hbroken
      exact absurd (congrArg List.length hbroken) (by simp [setRow])
  · refine iff_of_false (fun h => ?_) fun h => hquote ⟨h.1, h.2.1⟩
    have hbroken := h addsRow
    rw [dbAccountUpdateNick_broken hquote] at hbroken
    exact hmore _ hbroken

end Updates

end ModifyBasic

/-- Whatever SQLite makes of broken statements: the profile is replaced, or the table left alone,
if and only if this holds of the user of the session. -/
theorem modifyBasic_right_iff {ρ : Type} (encryptPwd : CString → CString) (other : Db ρ)
    (fails : DbOp → List Account × ρ → Bool) {m : SessionMod} (hm : Settled (fun _ _ _ => True) m)
    (rows : List Account) (o : ρ) (junk : Junk) (fd : ℕ) (nick comment : CString) :
    (∀ sql, ModifyBasicRight (updatesMayFail fails (accountDb sql encryptPwd other)) (m, rows, o)
      junk fd nick comment) ↔ ∀ n ∈ m.sessionList, n.session.fd = fd →
        ProfileKept fails rows o junk n.session.uid nick comment := by
  simp only [modifyBasicRight_iff hm]
  constructor
  · exact fun h n hn hfd => updatesRight_iff.mp fun sql => h sql n hn hfd
  · exact fun h sql n hn hfd => updatesRight_iff.mpr (h n hn hfd) sql

theorem modifyBasic_right_ann : HasSession annLoggedIn 5 ∧ ∀ sql, ModifyBasicRight
    (updatesMayFail (fun _ _ => false) (accountDb sql id emptyDb)) (annLoggedIn, [ann], ()) noJunk 5
      (lit "Ann") (lit "likes tea") := by
  refine ⟨⟨_, List.mem_singleton_self _, rfl⟩, ?_⟩
  refine (modifyBasic_right_iff _ _ _ settled_annLoggedIn _ _ _ _ _ _).mpr fun n hn _ => ?_
  obtain rfl := List.mem_singleton.mp hn
  decide

/-- A nick of 20 bytes is cut; and a second update that fails leaves a new nick behind. -/
theorem modifyBasic_wrong_ann :
    ¬ (∀ sql, ModifyBasicRight (updatesMayFail (fun _ _ => false) (accountDb sql id emptyDb))
      (annLoggedIn, [ann], ()) noJunk 5 (lit "Ann of Green Gables!") (lit "likes tea")) ∧
    ¬ ∀ sql, ModifyBasicRight (updatesMayFail (fun op _ =>
        match op with | .accountUpdateComment _ _ => true | _ => false)
      (accountDb sql id emptyDb)) (annLoggedIn, [ann], ()) noJunk 5 (lit "Ann")
        (lit "likes tea") := by
  refine ⟨fun h => ?_, fun h => ?_⟩
  · have hkept := updatesRight_iff.mp fun sql =>
      (modifyBasicRight_iff settled_annLoggedIn).mp (h sql) _ (List.mem_singleton_self _) rfl
    exact absurd hkept (by decide)
  · have hkept := updatesRight_iff.mp fun sql =>
      (modifyBasicRight_iff settled_annLoggedIn).mp (h sql) _ (List.mem_singleton_self _) rfl
    exact absurd hkept (by decide)

end Youmenu.Server
