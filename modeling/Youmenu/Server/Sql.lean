import Mathlib.Tactic.IntervalCases
import Youmenu.Lib.SqlText
import Youmenu.Server.Accounts

/-!
# The statements of the `db_*.c` files

The functions that put strings into a statement write a quote before and after each of
them, and leave the string itself as it is. The statement has the tokens that its format
suggests exactly if no string has a quote in it.

## Main definitions

* `sprintf` — the conversions that the statements use.
* `dbEncryptPwd` — how passwords are stored.
* `Builder`, `Builder.text` — the functions and their statements.
* `Builder.KeepsShape` — the tokens of the statement are those of its format.
-/

namespace Youmenu.Server

open Eventpack SqlText

/-! ## `sprintf` -/

inductive SprintfArg where
  | string (s : CString)
  | int (n : ℤ)
  | double (x : BitVec 64)

/-- Division that rounds to the nearest number, and to an even one in the middle. -/
def roundDiv (n d : ℕ) : ℕ :=
  if 2 * (n % d) < d ∨ 2 * (n % d) = d ∧ n / d % 2 = 0 then n / d else n / d + 1

/-- The conversion of a whole number to `double`, rounded to even. -/
def wholeToDouble (n : ℤ) : BitVec 64 :=
  if n = 0 then 0
  else
    let e := n.natAbs.log2
    let m := if e ≤ 52 then n.natAbs * 2 ^ (52 - e) else roundDiv n.natAbs (2 ^ (e - 52))
    BitVec.ofNat 64 ((if n < 0 then 2 ^ 63 else 0) + (e + 1022) * 2 ^ 52 + m)

def amountToDouble : Amount → BitVec 64
  | .double value => value
  | .whole value => wholeToDouble value

def doubleExponent (x : BitVec 64) : ℕ := x.toNat / 2 ^ 52 % 2 ^ 11

def doubleFraction (x : BitVec 64) : ℕ := x.toNat % 2 ^ 52

/-- The absolute value of a finite double in hundredths. -/
def hundredths (x : BitVec 64) : ℕ :=
  -- With the least exponent there is no hidden bit.
  let mantissa := if doubleExponent x = 0 then doubleFraction x else 2 ^ 52 + doubleFraction x
  let exponent := max 1 (doubleExponent x)
  roundDiv (100 * mantissa * 2 ^ (exponent - 1075)) (2 ^ (1075 - exponent))

def sqlFixedAbs (x : BitVec 64) : List UInt8 :=
  if doubleExponent x = 2047 then
    if doubleFraction x = 0 then sqlText "inf" else sqlText "nan"
  else
    sqlInt (hundredths x / 100 : ℕ) ++ sqlText "." ++ sqlInt (hundredths x / 10 % 10 : ℕ) ++
      sqlInt (hundredths x % 10 : ℕ)

/-- What `%0.2f` prints. -/
def sqlFixed (x : BitVec 64) : List UInt8 := (if x.msb then sqlText "-" else []) ++ sqlFixedAbs x

/-- A part of a format: text, `'%s'` with its quotes, `%d` or `%0.2f`. -/
inductive Conversion where
  | text (bytes : List UInt8)
  | quoted
  | int
  | fixed
deriving DecidableEq

/-- The parts of a format, with the text that was read before. -/
def readFormat (read : List UInt8) : List Char → List Conversion
  | [] => [.text read]
  | '\x27' :: '%' :: 's' :: '\x27' :: format => .text read :: .quoted :: readFormat [] format
  | '%' :: 'd' :: format => .text read :: .int :: readFormat [] format
  | '%' :: '0' :: '.' :: '2' :: 'f' :: format => .text read :: .fixed :: readFormat [] format
  | c :: format => readFormat (read ++ [UInt8.ofNat c.toNat]) format

/-- The arguments in the places of their conversions. -/
def fill : List Conversion → List SprintfArg → List Piece
  | .text bytes :: cs, args => .raw bytes :: fill cs args
  | .quoted :: cs, .string s :: args => .string s.bytes :: fill cs args
  | .int :: cs, .int n :: args => .raw (sqlInt n) :: fill cs args
  | .fixed :: cs, .double x :: args => .raw (sqlFixed x) :: fill cs args
  | _, _ => []

/-- `sprintf`, for formats that have `%s` between quotes only. -/
def sprintf (format : String) (args : List SprintfArg) : List UInt8 :=
  render (fill (readFormat [] format.toList) args)

/-! ### Numbers -/

theorem mem_sqlText {s : String} {b : UInt8} (hb : b ∈ sqlText s) :
    ∃ c ∈ s.toList, b = UInt8.ofNat c.toNat := by
  have hmem := List.takeWhile_sublist _ |>.subset hb
  obtain ⟨c, hc, rfl⟩ := List.mem_map.mp hmem
  exact ⟨c, hc, rfl⟩

theorem unmarked_sqlNat (n : ℕ) : Unmarked (sqlInt n) := by
  intro b hb
  obtain ⟨c, hc, rfl⟩ := mem_sqlText hb
  have hdigits : c ∈ Nat.toDigits 10 n := by
    simpa [Int.toString_eq_repr, Int.repr_eq_if] using hc
  obtain ⟨hlow, hhigh⟩ : 48 ≤ c.toNat ∧ c.toNat ≤ 57 :=
    Char.isDigit_iff_toNat.mp (Nat.isDigit_of_mem_toDigits (by decide) (by decide) hdigits)
  interval_cases c.toNat <;> decide

/-- One dash at the start does not make a comment. -/
theorem run_minus_open {bs : List UInt8} (hbs : Unmarked bs) :
    (run .blank (sqlText "-" ++ bs)).2.Open := by
  have hsign : sqlText "-" = [dashByte] := by decide
  have hdash : (run .dash bs).2.Open := run_open trivial hbs
  rw [hsign]
  exact hdash

theorem sqlInt_negSucc (n : ℕ) : sqlInt (.negSucc n) = sqlText "-" ++ sqlInt (n + 1 : ℕ) := by
  have hneg : toString (Int.negSucc n) = "-" ++ (n + 1).repr := rfl
  have hpos : toString ((n + 1 : ℕ) : ℤ) = (n + 1).repr := rfl
  rw [sqlInt, sqlInt, hneg, hpos]
  simp [sqlText, lit, CString.read]

theorem run_sqlInt (n : ℤ) : (run .blank (sqlInt n)).2.Open := by
  cases n with
  | ofNat n =>
    have hunmarked : Unmarked (sqlInt (.ofNat n)) := unmarked_sqlNat n
    exact run_open trivial hunmarked
  | negSucc n =>
    have hunmarked := unmarked_sqlNat (n + 1)
    rw [sqlInt_negSucc]
    exact run_minus_open hunmarked

theorem unmarked_sqlFixedAbs (x : BitVec 64) : Unmarked (sqlFixedAbs x) := by
  have hpoint : Unmarked (sqlText ".") := unmarked_of_all (by decide)
  unfold sqlFixedAbs
  split_ifs
  · exact unmarked_of_all (by decide)
  · exact unmarked_of_all (by decide)
  · exact (((unmarked_sqlNat _).append hpoint).append (unmarked_sqlNat _)).append
      (unmarked_sqlNat _)

theorem run_sqlFixed (x : BitVec 64) : (run .blank (sqlFixed x)).2.Open := by
  unfold sqlFixed
  split
  · exact run_minus_open (unmarked_sqlFixedAbs x)
  · exact run_open trivial (unmarked_sqlFixedAbs x)

/-- The bits of an `int` that is converted to `double`: its mantissa is in front. -/
theorem toNat_wholeToDouble {n : ℤ} (hn : n ≠ 0) (hsize : n.natAbs < 2 ^ 32) :
    ∃ e ≤ 31, 2 ^ 52 ≤ n.natAbs * 2 ^ (52 - e) ∧ n.natAbs * 2 ^ (52 - e) < 2 ^ 53 ∧
      (wholeToDouble n).toNat =
        (if n < 0 then 2 ^ 63 else 0) + (e + 1022) * 2 ^ 52 + n.natAbs * 2 ^ (52 - e) := by
  have hpos : n.natAbs ≠ 0 := Int.natAbs_ne_zero.mpr hn
  have hlog : n.natAbs.log2 < 32 := (Nat.log2_lt hpos).mpr hsize
  have hlow : 2 ^ n.natAbs.log2 * 2 ^ (52 - n.natAbs.log2) ≤
      n.natAbs * 2 ^ (52 - n.natAbs.log2) := Nat.mul_le_mul_right _ (Nat.log2_self_le hpos)
  have hhigh : n.natAbs * 2 ^ (52 - n.natAbs.log2) <
      2 ^ (n.natAbs.log2 + 1) * 2 ^ (52 - n.natAbs.log2) :=
    Nat.mul_lt_mul_of_pos_right Nat.lt_log2_self (by positivity)
  have hlow' : n.natAbs.log2 + (52 - n.natAbs.log2) = 52 := by omega
  have hhigh' : n.natAbs.log2 + 1 + (52 - n.natAbs.log2) = 53 := by omega
  rw [← Nat.pow_add, hlow'] at hlow
  rw [← Nat.pow_add, hhigh'] at hhigh
  refine ⟨n.natAbs.log2, by omega, hlow, hhigh, ?_⟩
  simp only [wholeToDouble, hn, if_false, show n.natAbs.log2 ≤ 52 by omega, if_true,
    BitVec.toNat_ofNat]
  refine Nat.mod_eq_of_lt ?_
  split_ifs <;> omega

/-- An `int` that is converted to `double` and back. -/
theorem doubleToInt_wholeToDouble {n : ℤ} (hlow : -2 ^ 31 ≤ n) (hhigh : n < 2 ^ 31) :
    doubleToInt (wholeToDouble n) = n := by
  by_cases hzero : n = 0
  · rw [hzero]
    rfl
  obtain ⟨e, he, hmlow, hmhigh, hbits⟩ := toNat_wholeToDouble hzero (by omega)
  have hdiv : n.natAbs * 2 ^ (52 - e) / 2 ^ (52 - e) = n.natAbs :=
    Nat.mul_div_cancel _ (by positivity)
  generalize n.natAbs * 2 ^ (52 - e) = m at hmlow hmhigh hbits hdiv
  have hexponent : (wholeToDouble n).toNat / 2 ^ 52 % 2 ^ 11 = 1023 + e := by
    rw [hbits]
    split_ifs <;> omega
  have hmantissa : (wholeToDouble n).toNat % 2 ^ 52 + 2 ^ 52 = m := by
    rw [hbits]
    split_ifs <;> omega
  have hmsb : (wholeToDouble n).msb = decide (n < 0) := by
    rw [BitVec.msb_eq_decide, hbits]
    split_ifs with hneg
    · simp only [hneg, decide_true, decide_eq_true_eq]
      omega
    · simp only [hneg, decide_false, decide_eq_false_iff_not]
      omega
  simp only [doubleToInt, hexponent, hmantissa, hmsb, Nat.add_sub_cancel_left, hdiv]
  rw [if_neg (by omega)]
  split_ifs with hexp hneg
  · simp only [decide_eq_true_eq] at hneg
    omega
  · simp only [decide_eq_true_eq] at hneg
    omega
  · -- only the least `int` has this exponent
    obtain rfl : e = 31 := by omega
    simp only [Nat.reduceSub] at hdiv
    omega

/-! ### Formats -/

/-- The text goes on with a symbol, or ends. -/
def symbolNext : List Conversion → Bool
  | .text (b :: _) :: _ => b ≠ quoteByte && b ≠ dashByte && !isWord b
  | [.text []] => true
  | _ => false

/-- A word does not go over the end of a part. -/
def spaced : List Conversion → Bool
  | [] => true
  | .text bytes :: cs => (run .blank bytes).2 = .blank && spaced cs
  | _ :: cs => symbolNext cs && spaced cs

theorem separates_of_symbolNext {st : State} {cs : List Conversion} (hst : st.Open)
    (hcs : symbolNext cs) (args : List SprintfArg) : Separates st (render (fill cs args)) := by
  match cs, hcs with
  | .text (b :: bytes) :: cs, hcs =>
    obtain ⟨⟨-, hdash⟩, hword⟩ : (b ≠ quoteByte ∧ b ≠ dashByte) ∧ isWord b = false := by
      simpa [symbolNext] using hcs
    exact separates_of_open hst hword hdash
  | [.text []], _ => trivial

theorem head_of_symbolNext {cs : List Conversion} (hcs : symbolNext cs) (args : List SprintfArg) :
    (render (fill cs args)).head? ≠ some quoteByte := by
  match cs, hcs with
  | .text (b :: bytes) :: cs, hcs =>
    obtain ⟨⟨hquote, -⟩, -⟩ : (b ≠ quoteByte ∧ b ≠ dashByte) ∧ isWord b = false := by
      simpa [symbolNext] using hcs
    simpa [fill, render_raw] using hquote
  | [.text []], _ => simp [fill, render, Piece.render]

theorem wellSpaced_fill {cs : List Conversion} (hcs : spaced cs) (args : List SprintfArg) :
    WellSpaced (fill cs args) := by
  fun_induction fill cs args with
  | case1 bytes cs args ih =>
    obtain ⟨hblank, hcs⟩ : (run .blank bytes).2 = .blank ∧ spaced cs = true := by
      simpa [spaced] using hcs
    refine ⟨?_, ih hcs⟩
    rw [hblank]
    exact separates_blank _
  | case2 cs s args ih =>
    obtain ⟨hnext, hcs⟩ : symbolNext cs = true ∧ spaced cs = true := by simpa [spaced] using hcs
    exact ⟨head_of_symbolNext hnext args, ih hcs⟩
  | case3 cs n args ih =>
    obtain ⟨hnext, hcs⟩ : symbolNext cs = true ∧ spaced cs = true := by simpa [spaced] using hcs
    exact ⟨separates_of_symbolNext (run_sqlInt n) hnext args, ih hcs⟩
  | case4 cs x args ih =>
    obtain ⟨hnext, hcs⟩ : symbolNext cs = true ∧ spaced cs = true := by simpa [spaced] using hcs
    exact ⟨separates_of_symbolNext (run_sqlFixed x) hnext args, ih hcs⟩
  | case5 => trivial

/-- The conversion that an argument is for. -/
def SprintfArg.conversion : SprintfArg → Conversion
  | string _ => .quoted
  | int _ => .int
  | double _ => .fixed

def Conversion.isText : Conversion → Bool
  | text _ => true
  | _ => false

theorem mem_fill {cs : List Conversion} {args : List SprintfArg}
    (hargs : args.map SprintfArg.conversion = cs.filter (!·.isText)) {value : List UInt8} :
    .string value ∈ fill cs args ↔ ∃ s : CString, .string s ∈ args ∧ s.bytes = value := by
  fun_induction fill cs args with
  | case1 bytes cs args ih =>
    rw [← ih (by simpa [Conversion.isText] using hargs)]
    simp
  | case2 cs s args ih =>
    have hih := ih (by simpa [Conversion.isText, SprintfArg.conversion] using hargs)
    simp only [List.mem_cons, hih, Piece.string.injEq, SprintfArg.string.injEq]
    grind
  | case3 cs n args ih | case4 cs n args ih =>
    rw [List.mem_cons, ih (by simpa [Conversion.isText, SprintfArg.conversion] using hargs)]
    simp
  | case5 cs args htext hstring hint hdouble =>
    -- The arguments end with the conversions.
    have hempty : args = [] := by
      cases args with
      | nil => rfl
      | cons arg args =>
        cases cs with
        | nil => simp at hargs
        | cons c cs =>
          have hconversion : (!c.isText) = true → arg.conversion = c := by
            intro hc
            rw [List.map_cons, List.filter_cons, if_pos hc] at hargs
            exact (List.cons.inj hargs).1
          cases c with
          | text bytes => exact (htext bytes cs rfl).elim
          | quoted =>
            cases arg with
            | string s => exact (hstring cs s args rfl rfl).elim
            | int n | double x => cases hconversion rfl
          | int =>
            cases arg with
            | int n => exact (hint cs n args rfl rfl).elim
            | string s | double x => cases hconversion rfl
          | fixed =>
            cases arg with
            | double x => exact (hdouble cs x args rfl rfl).elim
            | string s | int n => cases hconversion rfl
    simp [hempty]

/-! ## Passwords -/

/-- How the server was compiled: with `DEBUG`, or without it and with `tmpSha` for what
the two calls of `SHA` leave in `tmp_sha`. -/
inductive Build where
  | debug
  | release (tmpSha : CString → Vector UInt8 20)

def hexDigit (n : ℕ) : UInt8 := UInt8.ofNat (if n < 10 then 0x30 + n else 0x37 + n)

/-- `%02X`. -/
def hexByte (b : UInt8) : List UInt8 := [hexDigit (b.toNat / 16), hexDigit (b.toNat % 16)]

theorem hexDigit_ne {n : ℕ} (hn : n < 16) : hexDigit n ≠ 0 ∧ hexDigit n ≠ quoteByte := by
  interval_cases n <;> decide

theorem hexByte_ne {b c : UInt8} (hc : c ∈ hexByte b) : c ≠ 0 ∧ c ≠ quoteByte := by
  have hb := b.toNat_lt
  rcases List.mem_pair.mp hc with rfl | rfl
  · exact hexDigit_ne (by omega)
  · exact hexDigit_ne (by omega)

/-- Without `DEBUG` the last byte of the hash is printed first. -/
def dbEncryptPwd : Build → CString → CString
  | .debug, pwd => pwd
  | .release tmpSha, pwd =>
    { bytes := (tmpSha pwd).toList.reverse.flatMap hexByte
      ne_zero := by
        intro c hc
        obtain ⟨b, -, hc⟩ := List.mem_flatMap.mp hc
        exact (hexByte_ne hc).1 }

theorem length_dbEncryptPwd_release (tmpSha : CString → Vector UInt8 20) (pwd : CString) :
    (dbEncryptPwd (.release tmpSha) pwd).bytes.length = 40 := by
  have hsum : ∀ bs : List UInt8, (bs.flatMap hexByte).length = 2 * bs.length := by
    intro bs
    simp [List.length_flatMap, hexByte, Nat.mul_comm]
  simp [dbEncryptPwd, hsum]

/-! ## The statements -/

/-- The functions that put strings into a statement, with their arguments. -/
inductive Builder where
  | accountAdd (account : Account)
  | accountGetOne (uid : CString)
  | accountPwdCheck (uid pwd : CString)
  | accountUpdatePwd (uid newPwd : CString)
  | accountUpdateNick (uid nick : CString)
  | accountUpdateComment (uid comment : CString)
  | accountDel (uid : CString)
  | bookAdd (book : Book)
  | dishAdd (dish : Dish) (thumbnail : CString)
  | seatAdd (seat : Seat)

namespace Builder

/-- `query_sql`. -/
def format : Builder → String
  | accountAdd _ =>
    "INSERT INTO t_db_account (uid,type,pwd,nick,comment) VALUES ('%s',%d,'%s','%s','%s')"
  | accountGetOne _ => "SELECT * FROM t_db_account WHERE uid='%s'"
  | accountPwdCheck _ _ => "SELECT * FROM t_db_account WHERE uid='%s' AND pwd='%s'"
  | accountUpdatePwd _ _ => "UPDATE t_db_account SET pwd='%s' WHERE uid='%s'"
  | accountUpdateNick _ _ => "UPDATE t_db_account SET nick='%s' WHERE uid='%s'"
  | accountUpdateComment _ _ => "UPDATE t_db_account SET comment='%s' WHERE uid='%s'"
  | accountDel _ => "DELETE FROM t_db_account WHERE uid='%s'"
  | bookAdd _ =>
    "INSERT INTO t_db_book (seat_id,dish_id,jin_or_plate,comment,accept_state) VALUES (%d,%d,%0.2f,'%s',%d)"
  | dishAdd _ _ =>
    "INSERT INTO t_db_dish (id, category,name,summary,thumbnail,price_type, price) VALUES (%d,%d,'%s','%s','%s',%d,%d)"
  | seatAdd _ => "INSERT INTO t_db_seat (id,summary,qrcode) VALUES (%d,'%s','%s')"

/-- What is passed to `sprintf`. A new user is written in lower case. -/
def args (build : Build) : Builder → List SprintfArg
  | accountAdd a =>
    [.string (wordToLower a.uid), .int a.type, .string (dbEncryptPwd build a.pwd), .string a.nick,
      .string a.comment]
  | accountGetOne uid => [.string uid]
  | accountPwdCheck uid pwd => [.string uid, .string (dbEncryptPwd build pwd)]
  | accountUpdatePwd uid newPwd => [.string (dbEncryptPwd build newPwd), .string uid]
  | accountUpdateNick uid nick => [.string nick, .string uid]
  | accountUpdateComment uid comment => [.string comment, .string uid]
  | accountDel uid => [.string uid]
  | bookAdd b =>
    [.int b.seatId, .int b.dishId, .double b.jinOrPlate, .string b.comment, .int b.acceptState]
  | dishAdd d thumbnail =>
    [.int d.id, .int d.category, .string d.name, .string d.summary, .string thumbnail,
      .int d.priceType, .int d.price]
  | seatAdd s => [.int s.id, .string s.summary, .string s.qrcode]

/-- The statement in `sqlbuf`. -/
def text (build : Build) (b : Builder) : List UInt8 := sprintf b.format (b.args build)

theorem spaced_format (b : Builder) : spaced (readFormat [] b.format.toList) := by
  cases b <;> rw [format, String.toList_ofList] <;> decide +kernel

theorem args_conversion (build : Build) (b : Builder) :
    (b.args build).map SprintfArg.conversion =
      (readFormat [] b.format.toList).filter (!·.isText) := by
  cases b <;> rw [format, String.toList_ofList] <;>
    simp only [args, List.map, SprintfArg.conversion] <;> decide +kernel

/-- The statement has the tokens of its format, and each string in it is a literal that
denotes this string. -/
def KeepsShape (build : Build) (b : Builder) : Prop :=
  tokens (b.text build) = template (fill (readFormat [] b.format.toList) (b.args build))

instance (build : Build) (b : Builder) : Decidable (b.KeepsShape build) :=
  inferInstanceAs (Decidable (_ = _))

/-- A password goes into the statement as it is only with `DEBUG`. -/
def insertedPwd (build : Build) (pwd : CString) : List CString :=
  match build with
  | .debug => [pwd]
  | .release _ => []

/-- The arguments that go into the statement as they are, up to upper and lower case. -/
def inserted (build : Build) : Builder → List CString
  | accountAdd a => [a.uid] ++ insertedPwd build a.pwd ++ [a.nick, a.comment]
  | accountGetOne uid => [uid]
  | accountPwdCheck uid pwd => [uid] ++ insertedPwd build pwd
  | accountUpdatePwd uid newPwd => insertedPwd build newPwd ++ [uid]
  | accountUpdateNick uid nick => [nick, uid]
  | accountUpdateComment uid comment => [comment, uid]
  | accountDel uid => [uid]
  | bookAdd b => [b.comment]
  | dishAdd d thumbnail => [d.name, d.summary, thumbnail]
  | seatAdd s => [s.summary, s.qrcode]

theorem quoteFree_iff {s : CString} : QuoteFree s = true ↔ quoteByte ∉ s.bytes := by
  simp [QuoteFree, quoteByte]

theorem quoteFree_dbEncryptPwd {build : Build} {pwd : CString} :
    QuoteFree (dbEncryptPwd build pwd) = true ↔ ∀ s ∈ insertedPwd build pwd, QuoteFree s := by
  cases build with
  | debug => simp [dbEncryptPwd, insertedPwd]
  | release tmpSha =>
    simp only [insertedPwd, List.not_mem_nil, false_implies, implies_true, iff_true, quoteFree_iff]
    intro hquote
    obtain ⟨b, -, hb⟩ := List.mem_flatMap.mp hquote
    exact (hexByte_ne hb).2 rfl

theorem quoteFree_args (build : Build) (b : Builder) :
    (∀ s, .string s ∈ b.args build → QuoteFree s) ↔ ∀ s ∈ b.inserted build, QuoteFree s := by
  cases b <;> simp [args, inserted, or_imp, forall_and, quoteFree_wordToLower,
    quoteFree_dbEncryptPwd]

theorem keepsShape_iff_args (build : Build) (b : Builder) :
    b.KeepsShape build ↔ ∀ s, .string s ∈ b.args build → QuoteFree s := by
  unfold KeepsShape text sprintf
  rw [tokens_render_iff (wellSpaced_fill b.spaced_format _)]
  simp only [mem_fill (args_conversion build b), quoteFree_iff]
  constructor
  · intro h s hs
    exact h s.bytes ⟨s, hs, rfl⟩
  · rintro h value ⟨s, hs, rfl⟩
    exact h s hs

/-- A statement keeps its shape exactly if there is no quote in its arguments. -/
theorem keepsShape_iff (build : Build) (b : Builder) :
    b.KeepsShape build ↔ ∀ s ∈ b.inserted build, QuoteFree s := by
  rw [keepsShape_iff_args, quoteFree_args]

/-- The user `ann'--` needs no password to be taken for `ann`. -/
theorem login_query_broken :
    validUid (lit "ann'--") ∧ validPwd (lit "x") ∧
      ¬ (accountPwdCheck (lit "ann'--") (lit "x")).KeepsShape .debug ∧
      tokens ((accountPwdCheck (lit "ann'--") (lit "x")).text .debug) =
        tokens ((accountGetOne (lit "ann")).text .debug) := by
  decide +kernel

/-! ### The queries of a login -/

variable {sql : BrokenSql} {build : Build} {rows : List Account} {uid pwd : CString}

theorem text_accountGetOne :
    (accountGetOne uid).text build =
      sqlText "SELECT * FROM t_db_account WHERE uid=" ++ quoted uid := by
  have hformat : readFormat [] (accountGetOne uid).format.toList =
      [.text (sqlText "SELECT * FROM t_db_account WHERE uid="), .quoted, .text []] := by
    rw [format, sqlText, lit, String.toList_ofList, String.toList_ofList]
    decide +kernel
  rw [text, sprintf, hformat]
  simp [args, fill, render, Piece.render, quoted, quoteByte]

theorem text_accountPwdCheck :
    (accountPwdCheck uid pwd).text build =
      sqlText "SELECT * FROM t_db_account WHERE uid=" ++ quoted uid ++
        sqlText " AND pwd=" ++ quoted (dbEncryptPwd build pwd) := by
  have hformat : readFormat [] (accountPwdCheck uid pwd).format.toList =
      [.text (sqlText "SELECT * FROM t_db_account WHERE uid="), .quoted,
        .text (sqlText " AND pwd="), .quoted, .text []] := by
    rw [format, sqlText, sqlText, lit, lit, String.toList_ofList, String.toList_ofList,
      String.toList_ofList]
    decide +kernel
  rw [text, sprintf, hformat]
  simp [args, fill, render, Piece.render, quoted, quoteByte]

/-- The first query looks for the user as long as it keeps its shape. -/
theorem dbAccountGetOne_eq :
    dbAccountGetOne sql rows uid =
      if (accountGetOne uid).KeepsShape build then rows.find? (·.uid = uid)
      else (sql.query ((accountGetOne uid).text build) rows).head? := by
  have hshape : (accountGetOne uid).KeepsShape build ↔ QuoteFree uid := by
    simp [keepsShape_iff_args, args]
  rw [text_accountGetOne, if_congr hshape rfl rfl, dbAccountGetOne]

/-- The second one compares the hashes as long as it keeps its shape. -/
theorem dbAccountPwdCheck_eq :
    dbAccountPwdCheck sql (dbEncryptPwd build) rows uid pwd =
      if (accountPwdCheck uid pwd).KeepsShape build then
        rows.any fun a => a.uid = uid && a.pwd = dbEncryptPwd build pwd
      else sql.query ((accountPwdCheck uid pwd).text build) rows ≠ [] := by
  have hshape : (accountPwdCheck uid pwd).KeepsShape build ↔
      QuoteFree uid && QuoteFree (dbEncryptPwd build pwd) := by
    simp [keepsShape_iff_args, args]
  rw [text_accountPwdCheck, if_congr hshape rfl rfl, dbAccountPwdCheck]

end Builder

/-! ## The statements fit into `sqlbuf` -/

/-- The value of an `int`. -/
def IsInt (n : ℤ) : Prop := -2 ^ 31 ≤ n ∧ n < 2 ^ 31

theorem length_sqlText_le (s : String) : (sqlText s).length ≤ s.toList.length := by
  have hle := (List.takeWhile_sublist (· ≠ 0)
    (l := s.toList.map fun c => UInt8.ofNat c.toNat)).length_le
  simpa [sqlText, lit, CString.read] using hle

theorem length_sqlNat_le {n k : ℕ} (hk : 0 < k) (hn : n < 10 ^ k) : (sqlInt n).length ≤ k := by
  have hdigits : (Nat.toDigits 10 n).length ≤ k := (Nat.length_toDigits_le_iff (by decide) hk).mpr hn
  refine (length_sqlText_le _).trans ?_
  simpa [Int.toString_eq_repr, Int.repr_eq_if] using hdigits

theorem length_sqlInt_le {n : ℤ} (hn : IsInt n) : (sqlInt n).length ≤ 11 := by
  obtain ⟨hlow, hhigh⟩ := hn
  cases n with
  | ofNat n =>
    have hnat : (sqlInt n).length ≤ 10 := length_sqlNat_le (by decide) (by simp at hhigh; omega)
    exact hnat.trans (by decide)
  | negSucc n =>
    have hnat : (sqlInt (n + 1 : ℕ)).length ≤ 10 := length_sqlNat_le (by decide) (by omega)
    have hsign : (sqlText "-").length = 1 := by decide
    rw [sqlInt_negSucc, List.length_append, hsign]
    omega

theorem roundDiv_le (n d : ℕ) : roundDiv n d ≤ n + 1 := by
  have hle := Nat.div_le_self n d
  unfold roundDiv
  split_ifs <;> omega

theorem hundredths_le {x : BitVec 64} {k : ℕ} (hk : max 1 (doubleExponent x) - 1075 ≤ k) :
    hundredths x ≤ 100 * 2 ^ 53 * 2 ^ k + 1 := by
  have hfraction : doubleFraction x < 2 ^ 52 := Nat.mod_lt _ (by decide)
  have hmantissa : (if doubleExponent x = 0 then doubleFraction x else 2 ^ 52 + doubleFraction x) ≤
      2 ^ 53 := by
    split_ifs <;> omega
  have hpow : 2 ^ (max 1 (doubleExponent x) - 1075) ≤ 2 ^ k := Nat.pow_le_pow_right (by decide) hk
  refine (roundDiv_le _ _).trans (Nat.add_le_add_right ?_ 1)
  exact Nat.mul_le_mul (Nat.mul_le_mul_left 100 hmantissa) hpow

theorem length_sqlFixed_le (x : BitVec 64) : (sqlFixed x).length ≤ 313 := by
  have hsign : (if x.msb then sqlText "-" else []).length ≤ 1 := by split_ifs <;> decide
  have habs : (sqlFixedAbs x).length ≤ 312 := by
    unfold sqlFixedAbs
    split_ifs with hspecial
    · decide
    · decide
    · have hbound : 100 * 2 ^ 53 * 2 ^ 971 + 1 < 100 * 10 ^ 309 := by decide +kernel
      have hexponent : doubleExponent x < 2 ^ 11 := Nat.mod_lt _ (by decide)
      have hshift : max 1 (doubleExponent x) - 1075 ≤ 971 := by omega
      have hwhole : (sqlInt (hundredths x / 100 : ℕ)).length ≤ 309 :=
        length_sqlNat_le (by decide)
          (Nat.div_lt_of_lt_mul ((hundredths_le hshift).trans_lt hbound))
      have htenth : (sqlInt (hundredths x / 10 % 10 : ℕ)).length ≤ 1 :=
        length_sqlNat_le (by decide) (Nat.mod_lt _ (by decide))
      have hlast : (sqlInt (hundredths x % 10 : ℕ)).length ≤ 1 :=
        length_sqlNat_le (by decide) (Nat.mod_lt _ (by decide))
      have hpoint : (sqlText ".").length = 1 := by decide
      rw [List.length_append, List.length_append, List.length_append, hpoint]
      omega
  rw [sqlFixed, List.length_append]
  omega

def Conversion.size : Conversion → ℕ
  | text bytes => bytes.length
  | _ => 0

def SprintfArg.size : SprintfArg → ℕ
  | string s => s.bytes.length + 2
  | int n => (sqlInt n).length
  | double x => (sqlFixed x).length

theorem length_render_fill_le (cs : List Conversion) (args : List SprintfArg) :
    (render (fill cs args)).length ≤
      (cs.map Conversion.size).sum + (args.map SprintfArg.size).sum := by
  fun_induction fill cs args with
  | case1 bytes cs args ih | case2 cs s args ih | case3 cs n args ih | case4 cs x args ih =>
    simp only [render, List.flatMap_cons, Piece.render, List.length_append, List.length_cons,
      List.length_nil, List.map_cons, List.sum_cons, Conversion.size, SprintfArg.size] at ih ⊢
    omega
  | case5 => simp [render]

namespace Builder

/-- The bounds of the arguments: what the handlers test, and the sizes of the other
fields. -/
def Valid : Builder → Prop
  | accountAdd a => validAccount a
  | accountGetOne uid | accountDel uid => validUid uid
  | accountPwdCheck uid pwd | accountUpdatePwd uid pwd => validUid uid && validPwd pwd
  | accountUpdateNick uid nick => validUid uid && validNick nick
  | accountUpdateComment uid comment => validUid uid && validComment comment
  | bookAdd b => IsInt b.seatId ∧ IsInt b.dishId ∧ IsInt b.acceptState ∧ validComment b.comment
  | dishAdd d thumbnail =>
    (IsInt d.id ∧ IsInt d.category ∧ IsInt d.priceType ∧ IsInt d.price) ∧
      d.name.bytes.length ≤ 64 ∧ d.summary.bytes.length ≤ 256 ∧ thumbnail.bytes.length ≤ 64
  | seatAdd s => IsInt s.id ∧ s.summary.bytes.length ≤ 256 ∧ s.qrcode.bytes.length ≤ 64

theorem length_dbEncryptPwd_le {build : Build} {pwd : CString} (hpwd : validPwd pwd) :
    (dbEncryptPwd build pwd).bytes.length ≤ 40 := by
  cases build with
  | debug =>
    have hlength : pwd.bytes.length ≤ 16 := by
      simp only [validPwd, Bool.and_eq_true, decide_eq_true_eq] at hpwd
      exact hpwd.2
    exact hlength.trans (by decide)
  | release tmpSha => exact (length_dbEncryptPwd_release tmpSha pwd).le

theorem format_length (b : Builder) :
    ((readFormat [] b.format.toList).map Conversion.size).sum ≤ 100 := by
  cases b <;> rw [format, String.toList_ofList] <;> decide +kernel

theorem args_length_lt (build : Build) {b : Builder} (hvalid : b.Valid) :
    ((b.args build).map SprintfArg.size).sum < 1000 := by
  have hint : ∀ {n : ℤ}, IsInt n → (sqlInt n).length ≤ 11 := length_sqlInt_le
  have hpwd : ∀ {pwd : CString}, validPwd pwd → (dbEncryptPwd build pwd).bytes.length ≤ 40 :=
    length_dbEncryptPwd_le
  cases b with
  | accountAdd a =>
    simp only [Valid, validAccount, validUid, validType, validNick, validComment,
      Bool.and_eq_true, decide_eq_true_eq] at hvalid
    obtain ⟨⟨⟨⟨huid, hvalid⟩, htype⟩, hnick⟩, hcomment⟩ := hvalid
    have htype := hint (n := a.type) ⟨by omega, by omega⟩
    have hpwd := hpwd hvalid
    simp [args, SprintfArg.size, wordToLower]
    omega
  | accountGetOne uid | accountDel uid =>
    simp only [Valid, validUid, Bool.and_eq_true, decide_eq_true_eq] at hvalid
    simp [args, SprintfArg.size]
    omega
  | accountPwdCheck uid pwd | accountUpdatePwd uid pwd =>
    simp only [Valid, validUid, Bool.and_eq_true, decide_eq_true_eq] at hvalid
    have hpwd := hpwd hvalid.2
    simp [args, SprintfArg.size]
    omega
  | accountUpdateNick uid value | accountUpdateComment uid value =>
    simp only [Valid, validUid, validNick, validComment, Bool.and_eq_true,
      decide_eq_true_eq] at hvalid
    simp [args, SprintfArg.size]
    omega
  | bookAdd book =>
    obtain ⟨hseat, hdish, hstate, hcomment⟩ := hvalid
    simp only [validComment, decide_eq_true_eq] at hcomment
    have hseat := hint hseat
    have hdish := hint hdish
    have hstate := hint hstate
    have hjin := length_sqlFixed_le book.jinOrPlate
    simp [args, SprintfArg.size]
    omega
  | dishAdd dish thumbnail =>
    obtain ⟨⟨hid, hcategory, htype, hprice⟩, hname, hsummary, hthumbnail⟩ := hvalid
    have hid := hint hid
    have hcategory := hint hcategory
    have htype := hint htype
    have hprice := hint hprice
    simp [args, SprintfArg.size]
    omega
  | seatAdd seat =>
    obtain ⟨hid, hsummary, hqrcode⟩ := hvalid
    have hid := hint hid
    simp [args, SprintfArg.size]
    omega

/-- The statements fit into `sqlbuf`. -/
theorem length_text_lt (build : Build) {b : Builder} (hvalid : b.Valid) :
    (b.text build).length < 4096 := by
  have hformat := b.format_length
  have hargs := args_length_lt build hvalid
  have hlength := length_render_fill_le (readFormat [] b.format.toList) (b.args build)
  rw [text, sprintf]
  omega

end Builder

end Youmenu.Server
