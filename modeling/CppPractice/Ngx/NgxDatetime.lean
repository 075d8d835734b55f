import CppPractice.Lib.Calendar
import CppPractice.Lib.ByteParser
import CppPractice.Ngx.NgxString

/-!
# NgxDatetime — the dates of HTTP

`NgxDatetime::http` writes a time as the date of a header, with `ngx_http_time`, and reads such a date back,
with `ngx_http_parse_time`.  Both count days by Gauss' formula; here they are held against the calendar.

A time is what `time_t` holds; `ngx_gmtime` is for the times from 1970 on.
-/

namespace CppPractice
namespace Ngx

open Calendar (Date)

/-! ## `ngx_gmtime` -/

/-- The members of `struct tm` that are set; `year` is an `int`. -/
structure NgxTm where
  sec : Nat
  min : Nat
  hour : Nat
  mday : Nat
  mon : Nat
  year : Int
  wday : Nat
  deriving DecidableEq, Repr

/-- The year, the month and the day of the month, from the days since March 1, 1 BC. -/
def ngxGmdate (days : Nat) : Nat × Nat × Nat :=
  let year := (days + 2) * 400 / (365 * 400 + 100 - 4 + 1)
  let yday : Int := days - (365 * year + year / 4 - year / 100 + year / 400 : Nat)
  let leap := if year % 4 = 0 ∧ (year % 100 ≠ 0 ∨ year % 400 = 0) then 1 else 0
  let year' := if yday < 0 then year - 1 else year
  let yday := if yday < 0 then 365 + leap + yday else yday
  let mon := (yday + 31) * 10 / 306
  let mday := yday - (367 * mon / 12 - 30) + 1
  if yday ≥ 306 then (year' + 1, (mon - 10).toNat, mday.toNat) else (year', (mon + 2).toNat, mday.toNat)

def ngxGmtime (t : Nat) : NgxTm :=
  let days := t / 86400
  let n := t % 86400
  let date := ngxGmdate (days + 719527 - (31 + 28))
  { sec := n % 3600 % 60
    min := n % 3600 / 60
    hour := n / 3600
    mday := date.2.2
    mon := date.2.1
    year := Int.bmod date.1 (2 ^ 32)
    wday := (4 + days) % 7 }

/-! ## `ngx_http_time` -/

def week : List String := ["Sun", "Mon", "Tue", "Wed", "Thu", "Fri", "Sat"]

def months : List String :=
  ["Jan", "Feb", "Mar", "Apr", "May", "Jun", "Jul", "Aug", "Sep", "Oct", "Nov", "Dec"]

/-- `"%s, %02d %s %4d %02d:%02d:%02d GMT"` -/
def ngxHttpTime (t : Nat) : List UInt8 :=
  let tm := ngxGmtime t
  u8 (week.getD tm.wday "") ++ u8 ", " ++ ngxSprintfInt tm.mday '0' 2 ++ u8 " " ++
    u8 (months.getD (tm.mon - 1) "") ++ u8 " " ++ ngxSprintfInt tm.year ' ' 4 ++ u8 " " ++
    ngxSprintfInt tm.hour '0' 2 ++ u8 ":" ++ ngxSprintfInt tm.min '0' 2 ++ u8 ":" ++
    ngxSprintfInt tm.sec '0' 2 ++ u8 " GMT"

/-- `"%s, %02d-%s-%d %02d:%02d:%02d GMT"` from 2038 on, and `"%s, %02d-%s-%02d %02d:%02d:%02d GMT"` before. -/
def ngxHttpCookieTime (t : Nat) : List UInt8 :=
  let tm := ngxGmtime t
  u8 (week.getD tm.wday "") ++ u8 ", " ++ ngxSprintfInt tm.mday '0' 2 ++ u8 "-" ++
    u8 (months.getD (tm.mon - 1) "") ++ u8 "-" ++
    (if tm.year > 2037 then ngxSprintfInt tm.year ' ' 0 else ngxSprintfInt (tm.year.tmod 100) '0' 2) ++ u8 " " ++
    ngxSprintfInt tm.hour '0' 2 ++ u8 ":" ++ ngxSprintfInt tm.min '0' 2 ++ u8 ":" ++
    ngxSprintfInt tm.sec '0' 2 ++ u8 " GMT"

/-! ## `ngx_http_parse_time` -/

open ByteParser (read fail)

def isDigit (b : UInt8) : Bool := 48 ≤ b && b ≤ 57

/-- A digit at `p`; other bytes make the parser return `NGX_ERROR`. -/
def digit (value : List UInt8) (p : Nat) : ByteParser Unit Nat := do
  let b ← read value p
  if isDigit b then return b.toNat - 48 else fail ()

def digits2 (value : List UInt8) (p : Nat) : ByteParser Unit Nat := do
  let a ← digit value p
  let b ← digit value (p + 1)
  return a * 10 + b

def digits4 (value : List UInt8) (p : Nat) : ByteParser Unit Nat := do
  let a ← digits2 value p
  let b ← digits2 value (p + 2)
  return a * 100 + b

/-- `if (*p++ != b) return NGX_ERROR` -/
def expect (b : Char) (value : List UInt8) (p : Nat) : ByteParser Unit Unit := do
  let c ← read value p
  if c = b.toUInt8 then return else fail ()

/-- The month, January being 0. -/
def month (value : List UInt8) (p : Nat) : ByteParser Unit Nat := do
  let b ← read value p
  if b = 'J'.toUInt8 then
    let c ← read value (p + 1)
    if c = 'a'.toUInt8 then return 0
    let c ← read value (p + 2)
    return if c = 'n'.toUInt8 then 5 else 6
  else if b = 'F'.toUInt8 then return 1
  else if b = 'M'.toUInt8 then
    let c ← read value (p + 2)
    return if c = 'r'.toUInt8 then 2 else 4
  else if b = 'A'.toUInt8 then
    let c ← read value (p + 1)
    return if c = 'p'.toUInt8 then 3 else 7
  else if b = 'S'.toUInt8 then return 8
  else if b = 'O'.toUInt8 then return 9
  else if b = 'N'.toUInt8 then return 10
  else if b = 'D'.toUInt8 then return 11
  else fail ()

structure ParsedTime where
  year : Nat
  month : Nat
  day : Nat
  hour : Nat
  min : Nat
  sec : Nat
  deriving DecidableEq, Repr

/-- From the space before the hour on: the hour, the minute and the second. -/
def clock (value : List UInt8) (p : Nat) : ByteParser Unit (Nat × Nat × Nat) := do
  expect ' ' value p
  let hour ← digits2 value (p + 1)
  expect ':' value (p + 3)
  let min ← digits2 value (p + 4)
  expect ':' value (p + 6)
  let sec ← digits2 value (p + 7)
  return (hour, min, sec)

/-- After `Tue, `: the day, and after the month the year. -/
def parseRfc (value : List UInt8) (p : Nat) : ByteParser Unit ParsedTime := do
  let day ← digits2 value p
  let b ← read value (p + 2)
  if b = ' '.toUInt8 then
    if value.length < p + 2 + 18 then fail ()
    else do
      let month ← month value (p + 3)
      expect ' ' value (p + 6)
      let year ← digits4 value (p + 7)
      let (hour, min, sec) ← clock value (p + 11)
      return ⟨year, month, day, hour, min, sec⟩
  else if b = '-'.toUInt8 then
    let month ← month value (p + 3)
    expect '-' value (p + 6)
    let year ← digits2 value (p + 7)
    let (hour, min, sec) ← clock value (p + 9)
    return ⟨year + if year < 70 then 2000 else 1900, month, day, hour, min, sec⟩
  else fail ()

/-- The day at `p`, and where it ends. -/
def dayIsoc (value : List UInt8) (p : Nat) : ByteParser Unit (Nat × Nat) := do
  let day ← digit value p
  let b ← read value (p + 1)
  if b = ' '.toUInt8 then return (day, p + 1)
  else do
    let c ← digit value (p + 1)
    return (day * 10 + c, p + 2)

/-- After `Tue `: the month, and the year at the end. -/
def parseIsoc (value : List UInt8) (p : Nat) : ByteParser Unit ParsedTime := do
  let month ← month value p
  let b ← read value (p + 4)
  let (day, p) ← dayIsoc value (if b = ' '.toUInt8 then p + 5 else p + 4)
  if value.length < p + 14 then fail ()
  else do
    let (hour, min, sec) ← clock value p
    expect ' ' value (p + 9)
    let year ← digits4 value (p + 10)
    return ⟨year, month, day, hour, min, sec⟩

/-- Where the name of the day of the week ends. -/
def weekEnd (value : List UInt8) : Nat := value.findIdx fun b => b = ','.toUInt8 || b = ' '.toUInt8

/-- Where the date starts: after the name, one byte, and spaces. -/
def dateStart (value : List UInt8) : Nat :=
  weekEnd value + 1 + ((value.drop (weekEnd value + 1)).takeWhile (· = ' '.toUInt8)).length

def parseFields (value : List UInt8) : ByteParser Unit ParsedTime :=
  if value.length < dateStart value + 18 then fail ()
  else if value[weekEnd value]? = some ' '.toUInt8 then parseIsoc value (dateStart value)
  else parseRfc value (dateStart value)

def mdayTable : List Nat := [31, 28, 31, 30, 31, 30, 31, 31, 30, 31, 30, 31]

namespace ParsedTime

def inRange (f : ParsedTime) : Bool :=
  f.hour ≤ 23 && f.min ≤ 59 && f.sec ≤ 59 &&
    if f.day = 29 ∧ f.month = 1 then
      f.year % 4 = 0 && !(f.year % 100 = 0 && f.year % 400 ≠ 0)
    else f.day ≤ mdayTable.getD f.month 0

/-- In 64 bits; of the divisions only the year needs to be what it is. -/
def time (f : ParsedTime) : Int :=
  -- the year starts in March, and the months count from 1
  let month : Int := if f.month ≤ 1 then f.month - 1 + 12 else f.month - 1
  let year : Int := if f.month ≤ 1 then (f.year + (2 ^ 64 - 1)) % 2 ^ 64 else f.year
  Int.bmod
    ((365 * year + year / 4 - year / 100 + year / 400 + 367 * month / 12 - 30 + f.day - 1 - 719527 + 31 + 28) *
      86400 + f.hour * 3600 + f.min * 60 + f.sec) (2 ^ 64)

end ParsedTime

def ngxHttpParseTime (value : List UInt8) : ByteParser Unit Int := do
  let f ← parseFields value
  if f.inRange then return f.time else fail ()

/-! ## The calendar -/

/-- The first day that `time_t` counts. -/
def epoch : Date := Date.newYear 1970 (by decide)

/-- What `ngx_gmtime` takes the year for is the year or the next one. -/
theorem year_estimate (d : Date) :
    d.marchYear ≤ (d.number + 2) * 400 / 146097 ∧ (d.number + 2) * 400 / 146097 ≤ d.marchYear + 1 := by
  have hlt := d.marchDay_lt
  have hsucc := Date.yearNumber_succ d.marchYear
  rw [Date.number]
  generalize d.marchDay = day at hlt
  generalize d.marchYear = year at hlt hsucc
  simp only [Date.yearNumber] at hsucc ⊢
  omega

/-- The month and the day within it, from the day within the year that started in March. -/
theorem month_estimate (d : Date) :
    ((d.marchDay : Int) + 31) * 10 / 306 = d.marchMonth ∧
      (d.marchDay : Int) - (367 * d.marchMonth / 12 - 30) + 1 = d.day ∧
        ((d.marchDay : Int) ≥ 306 ↔ d.month ≤ 2) := by
  rcases d with ⟨year, month, day, hyear, hmonth, hle, hday, hlast⟩
  have hlength := Calendar.le_of_le_monthLength hlast
  simp only [Date.marchDay, Date.marchMonth, Date.monthNumber]
  interval_cases month <;> simp at hlength ⊢ <;> omega

theorem ngxGmdate_number (d : Date) : ngxGmdate d.number = (d.year, d.month, d.day) := by
  rcases month_estimate d with ⟨hmon, hmday, hlate⟩
  have hnumber : d.number = Date.yearNumber d.marchYear + d.marchDay := rfl
  have hmarch : d.marchYear = if d.month ≤ 2 then d.year - 1 else d.year := rfl
  have hmonth : d.marchMonth = if d.month ≤ 2 then d.month + 10 else d.month - 2 := rfl
  have hpos := d.year_pos
  have hmpos := d.month_pos
  -- what follows from the year and the day within it
  have hrest : (if (d.marchDay : Int) ≥ 306 then
      (d.marchYear + 1, (((d.marchDay : Int) + 31) * 10 / 306 - 10).toNat,
        ((d.marchDay : Int) - (367 * (((d.marchDay : Int) + 31) * 10 / 306) / 12 - 30) + 1).toNat)
      else (d.marchYear, (((d.marchDay : Int) + 31) * 10 / 306 + 2).toNat,
        ((d.marchDay : Int) - (367 * (((d.marchDay : Int) + 31) * 10 / 306) / 12 - 30) + 1).toNat)) =
          (d.year, d.month, d.day) := by
    rw [hmon, hmday, Int.toNat_natCast]
    by_cases hlow : d.month ≤ 2
    · rw [if_pos (hlate.2 hlow), hmarch, hmonth, if_pos hlow, if_pos hlow, Nat.sub_add_cancel hpos]
      refine congrArg (fun m => (d.year, m, d.day)) ?_
      omega
    · rw [if_neg (mt hlate.1 hlow), hmarch, hmonth, if_neg hlow, if_neg hlow]
      refine congrArg (fun m => (d.year, m, d.day)) ?_
      omega
  have hestimate := year_estimate d
  rcases (by omega : (d.number + 2) * 400 / 146097 = d.marchYear ∨
      (d.number + 2) * 400 / 146097 = d.marchYear + 1) with hyear | hyear
  · -- the estimate is the year: the day within it is not negative
    have hyday : (d.number : Int) - (365 * d.marchYear + d.marchYear / 4 - d.marchYear / 100 +
        d.marchYear / 400 : Nat) = d.marchDay := by
      rw [hnumber, Date.yearNumber]
      omega
    have hnonneg : ¬(d.marchDay : Int) < 0 := by omega
    simp only [ngxGmdate, Nat.reduceMul, Nat.reduceAdd, Nat.reduceSub, hyear, hyday, if_neg hnonneg]
    exact hrest
  · -- the estimate is a year too late: the negative day is counted from the end of the year before
    have hsucc := Date.yearNumber_succ d.marchYear
    have hlt := d.marchDay_lt
    have hleap : ∀ y, (if y % 4 = 0 ∧ (y % 100 ≠ 0 ∨ y % 400 = 0) then (1 : Int) else 0) =
        (if Calendar.isLeap y then 366 else 365 : Nat) - 365 := by
      intro y
      by_cases hy : Calendar.isLeap y
      · rw [if_pos hy]
        exact if_pos hy
      · rw [if_neg hy]
        exact if_neg hy
    generalize hlen : (if Calendar.isLeap (d.marchYear + 1) then 366 else 365) = len at hsucc hlt
    have hyday : (d.number : Int) - (365 * (d.marchYear + 1) + (d.marchYear + 1) / 4 -
        (d.marchYear + 1) / 100 + (d.marchYear + 1) / 400 : Nat) = d.marchDay - len := by
      rw [Date.yearNumber] at hsucc
      rw [hnumber, hsucc]
      omega
    have hneg : (d.marchDay : Int) - len < 0 := by omega
    have hback : 365 + ((len : Int) - 365) + (d.marchDay - len) = d.marchDay := by omega
    simp only [ngxGmdate, Nat.reduceMul, Nat.reduceAdd, Nat.reduceSub, hyear, hyday, if_pos hneg, hleap,
      hlen, hback, Nat.add_sub_cancel]
    exact hrest

theorem epoch_number : epoch.number = 719468 := by decide

/-- The date of a time. -/
def dateOf (t : Nat) : Date := epoch.after (t / 86400)

theorem dateOf_number (t : Nat) : (dateOf t).number = t / 86400 + 719468 := by
  rw [dateOf, Date.number_after, epoch_number, Nat.add_comm]

/-- The code counts what the calendar counts. -/
theorem ngxGmtime_eq (t : Nat) :
    ngxGmtime t =
      { sec := t % 60
        min := t / 60 % 60
        hour := t / 3600 % 24
        mday := (dateOf t).day
        mon := (dateOf t).month
        year := Int.bmod (dateOf t).year (2 ^ 32)
        wday := (4 + t / 86400) % 7 } := by
  have hnumber := dateOf_number t
  have hdays : t / 86400 + 719527 - (31 + 28) = (dateOf t).number := by omega
  simp only [ngxGmtime, hdays, ngxGmdate_number, NgxTm.mk.injEq, and_true]
  omega

theorem year_le {t : Nat} (ht : t < 253402300800) : (dateOf t).year ≤ 9999 := by
  by_contra hlarge
  have hnumber := dateOf_number t
  have hmarch : (dateOf t).marchYear =
      if (dateOf t).month ≤ 2 then (dateOf t).year - 1 else (dateOf t).year := rfl
  have hlate := (month_estimate (dateOf t)).2.2
  rw [Date.number] at hnumber
  generalize (dateOf t).marchDay = day at hnumber hlate
  generalize (dateOf t).marchYear = year at hnumber hmarch
  have hyear : year = 9999 ∧ 306 ≤ day ∨ 10000 ≤ year := by
    split at hmarch <;> omega
  rcases hyear with ⟨rfl, hday⟩ | hyear
  · simp only [Date.yearNumber] at hnumber
    omega
  · simp only [Date.yearNumber] at hnumber
    omega

theorem le_year (t : Nat) : 1970 ≤ (dateOf t).year := by
  have hnext : ∀ d : Date, d.year ≤ d.next.year := by
    intro d
    rw [Date.next]
    split
    case isTrue => exact Nat.le_refl _
    case isFalse =>
      split
      · exact Nat.le_refl _
      · exact Nat.le_succ _
  rw [dateOf, Date.after]
  induction t / 86400 with
  | zero => exact Nat.le_refl _
  | succ n ih =>
      rw [Function.iterate_succ_apply']
      exact ih.trans (hnext _)

theorem year_bmod {t : Nat} (ht : t < 253402300800) : Int.bmod (dateOf t).year (2 ^ 32) = (dateOf t).year := by
  have hle := year_le ht
  exact Int.bmod_eq_of_le_mul_two (by omega) (by omega)

/-! ## Reading what was written -/

theorem isDigit_digitByte : ∀ n < 10, isDigit (digitByte n) = true ∧ (digitByte n).toNat - 48 = n := by
  decide

theorem digit_digitByte {value : List UInt8} {p n : Nat} (hn : n < 10) (h : value[p]? = some (digitByte n)) :
    digit value p = .ok n := by
  rcases isDigit_digitByte n hn with ⟨hdigit, hval⟩
  rw [digit, ByteParser.read_eq h, ByteParser.ok_bind, if_pos hdigit, hval]
  rfl

theorem digits2_digitByte {value : List UInt8} {p n : Nat} (hn : n < 100)
    (hten : value[p]? = some (digitByte (n / 10))) (hone : value[p + 1]? = some (digitByte (n % 10))) :
    digits2 value p = .ok n := by
  rw [digits2, digit_digitByte (by omega) hten, ByteParser.ok_bind, digit_digitByte (by omega) hone,
    ByteParser.ok_bind, Nat.div_add_mod' n 10]
  rfl

theorem digits4_digitByte {value : List UInt8} {p n : Nat} (hn : n < 10000)
    (hthousand : value[p]? = some (digitByte (n / 1000)))
    (hhundred : value[p + 1]? = some (digitByte (n / 100 % 10)))
    (hten : value[p + 2]? = some (digitByte (n / 10 % 10))) (hone : value[p + 3]? = some (digitByte (n % 10))) :
    digits4 value p = .ok n := by
  have hhigh : digits2 value p = .ok (n / 100) :=
    digits2_digitByte (by omega) (by rwa [Nat.div_div_eq_div_mul]) hhundred
  have hlow : digits2 value (p + 2) = .ok (n % 100) :=
    digits2_digitByte (by omega) (by rwa [(by omega : n % 100 / 10 = n / 10 % 10)])
      (by rwa [Nat.mod_mod_of_dvd n (by decide)])
  rw [digits4, hhigh, ByteParser.ok_bind, hlow, ByteParser.ok_bind, Nat.div_add_mod' n 100]
  rfl

theorem expect_eq {value : List UInt8} {p : Nat} {b : Char} (h : value[p]? = some b.toUInt8) :
    expect b value p = .ok () := by
  rw [expect, ByteParser.read_eq h, ByteParser.ok_bind, if_pos rfl]
  rfl

theorem getElem?_of_drop {value rest : List UInt8} {p : Nat} (h : value.drop p = rest) (k : Nat) :
    value[p + k]? = rest[k]? := by
  rw [← h, List.getElem?_drop]

theorem drop_of_drop {value rest : List UInt8} {p : Nat} (h : value.drop p = rest) (k : Nat) :
    value.drop (p + k) = rest.drop k := by
  rw [← h, List.drop_drop]

/-- The bytes of the clock, as `ngx_http_time` writes them. -/
def clockBytes (hour min sec : Nat) : List UInt8 :=
  ' '.toUInt8 :: digitByte (hour / 10) :: digitByte (hour % 10) :: ':'.toUInt8 :: digitByte (min / 10) ::
    digitByte (min % 10) :: ':'.toUInt8 :: digitByte (sec / 10) :: digitByte (sec % 10) :: u8 " GMT"

theorem clock_eq {value : List UInt8} {p hour min sec : Nat} (hhour : hour < 100) (hmin : min < 100)
    (hsec : sec < 100) (h : value.drop p = clockBytes hour min sec) :
    clock value p = .ok (hour, min, sec) := by
  have hget := getElem?_of_drop h
  have hspace : expect ' ' value p = .ok () := expect_eq (hget 0)
  rw [clock, hspace, ByteParser.ok_bind, digits2_digitByte hhour (hget 1) (hget 2), ByteParser.ok_bind,
    expect_eq (hget 3), ByteParser.ok_bind, digits2_digitByte hmin (hget 4) (hget 5), ByteParser.ok_bind,
    expect_eq (hget 6), ByteParser.ok_bind, digits2_digitByte hsec (hget 7) (hget 8), ByteParser.ok_bind]
  rfl

/-- The name of a month is read as that month. -/
theorem month_months {i : Nat} (hi : i < 12) :
    ∃ a b c, u8 (months.getD i "") = [a, b, c] ∧ ∀ {value : List UInt8} {p : Nat} {rest : List UInt8},
      value.drop p = a :: b :: c :: rest → month value p = .ok i := by
  -- the names one by one, and then wherever they stand
  have hall : ∀ i < 12, (u8 (months.getD i "")).length = 3 ∧ month (u8 (months.getD i "")) 0 = .ok i := by
    decide +kernel
  have hsame : ∀ {value : List UInt8} {p : Nat} {a b c : UInt8} {rest : List UInt8},
      value.drop p = a :: b :: c :: rest → month value p = month [a, b, c] 0 := by
    intro value p a b c rest h
    have hget := getElem?_of_drop h
    have h0 : (read value p : ByteParser Unit UInt8) = read [a, b, c] 0 := ByteParser.read_eq (hget 0)
    have h1 : (read value (p + 1) : ByteParser Unit UInt8) = read [a, b, c] 1 := ByteParser.read_eq (hget 1)
    have h2 : (read value (p + 2) : ByteParser Unit UInt8) = read [a, b, c] 2 := ByteParser.read_eq (hget 2)
    rw [month, h0, h1, h2]
    rfl
  rcases hall i hi with ⟨hlength, hmonth⟩
  rcases List.length_eq_three.1 hlength with ⟨a, b, c, habc⟩
  refine ⟨a, b, c, habc, fun h => (hsame h).trans ?_⟩
  rw [← habc, hmonth]

theorem week_bytes {i : Nat} (hi : i < 7) :
    ∃ a b c, u8 (week.getD i "") = [a, b, c] ∧ ∀ x ∈ [a, b, c], x ≠ ','.toUInt8 ∧ x ≠ ' '.toUInt8 := by
  have hall : ∀ i < 7, (u8 (week.getD i "")).length = 3 ∧
      ∀ x ∈ u8 (week.getD i ""), x ≠ ','.toUInt8 ∧ x ≠ ' '.toUInt8 := by decide +kernel
  rcases hall i hi with ⟨hlength, hbytes⟩
  rcases List.length_eq_three.1 hlength with ⟨a, b, c, habc⟩
  exact ⟨a, b, c, habc, habc ▸ hbytes⟩

/-- The name of the day of the week is passed over. -/
theorem parseFields_rfc {a b c d : UInt8} {rest : List UInt8}
    (hweek : ∀ x ∈ [a, b, c], x ≠ ','.toUInt8 ∧ x ≠ ' '.toUInt8) (hday : d ≠ ' '.toUInt8)
    (hlength : 17 ≤ rest.length) :
    parseFields (a :: b :: c :: ','.toUInt8 :: ' '.toUInt8 :: d :: rest) =
      parseRfc (a :: b :: c :: ','.toUInt8 :: ' '.toUInt8 :: d :: rest) 5 := by
  generalize hvalue : a :: b :: c :: ','.toUInt8 :: ' '.toUInt8 :: d :: rest = value
  have hname : ∀ x ∈ [a, b, c], (decide (x = ','.toUInt8) || decide (x = ' '.toUInt8)) = false := by
    intro x hx
    simp [hweek x hx]
  have hend : weekEnd value = 3 := by
    rw [weekEnd, ← hvalue]
    simp [List.findIdx_cons, hname a (by simp), hname b (by simp), hname c (by simp)]
  have hstart : dateStart value = 5 := by
    rw [dateStart, hend, ← hvalue]
    simp [hday]
  have hlong : ¬value.length < 5 + 18 := by
    rw [← hvalue]
    simp only [List.length_cons]
    omega
  have hcomma : ¬value[3]? = some ' '.toUInt8 := by
    rw [← hvalue]
    change ¬some ','.toUInt8 = some ' '.toUInt8
    decide
  rw [parseFields, hstart, if_neg hlong, hend, if_neg hcomma]

theorem digitByte_ne_space : ∀ n < 10, digitByte n ≠ ' '.toUInt8 := by decide

/-- `Tue, 10 Nov 2002 23:50:13` -/
theorem parseRfc_rfc822 {value : List UInt8} {p year mon day hour min sec : Nat} (hyear : year < 10000)
    (hmon : mon < 12) (hday : day < 100) (hhour : hour < 100) (hmin : min < 100) (hsec : sec < 100)
    (h : value.drop p = digitByte (day / 10) :: digitByte (day % 10) :: ' '.toUInt8 ::
      (u8 (months.getD mon "") ++ ' '.toUInt8 :: digitByte (year / 1000) :: digitByte (year / 100 % 10) ::
        digitByte (year / 10 % 10) :: digitByte (year % 10) :: clockBytes hour min sec)) :
    parseRfc value p = .ok ⟨year, mon, day, hour, min, sec⟩ := by
  rcases month_months hmon with ⟨a, b, c, hname, hmonth⟩
  rw [hname] at h
  have hget := getElem?_of_drop h
  have hlong : ¬value.length < p + 2 + 18 := by
    have hlength := congrArg List.length h
    simp [clockBytes, u8] at hlength
    omega
  have hdigits : digits2 value p = .ok day := digits2_digitByte hday (hget 0) (hget 1)
  rw [parseRfc, hdigits, ByteParser.ok_bind, ByteParser.read_eq (hget 2), ByteParser.ok_bind, if_pos rfl,
    if_neg hlong, hmonth (drop_of_drop h 3), ByteParser.ok_bind, expect_eq (hget 6), ByteParser.ok_bind,
    digits4_digitByte hyear (hget 7) (hget 8) (hget 9) (hget 10), ByteParser.ok_bind,
    clock_eq hhour hmin hsec (drop_of_drop h 11), ByteParser.ok_bind]
  rfl

/-- `Tue, 10-Nov-02 23:50:13` -/
theorem parseRfc_rfc850 {value : List UInt8} {p year mon day hour min sec : Nat} (hyear : year < 100)
    (hmon : mon < 12) (hday : day < 100) (hhour : hour < 100) (hmin : min < 100) (hsec : sec < 100)
    (h : value.drop p = digitByte (day / 10) :: digitByte (day % 10) :: '-'.toUInt8 ::
      (u8 (months.getD mon "") ++ '-'.toUInt8 :: digitByte (year / 10) :: digitByte (year % 10) ::
        clockBytes hour min sec)) :
    parseRfc value p = .ok ⟨year + if year < 70 then 2000 else 1900, mon, day, hour, min, sec⟩ := by
  rcases month_months hmon with ⟨a, b, c, hname, hmonth⟩
  rw [hname] at h
  have hget := getElem?_of_drop h
  have hspace : ¬ '-'.toUInt8 = ' '.toUInt8 := by decide
  have hdigits : digits2 value p = .ok day := digits2_digitByte hday (hget 0) (hget 1)
  rw [parseRfc, hdigits, ByteParser.ok_bind, ByteParser.read_eq (hget 2), ByteParser.ok_bind, if_neg hspace,
    if_pos rfl, hmonth (drop_of_drop h 3), ByteParser.ok_bind, expect_eq (hget 6), ByteParser.ok_bind,
    digits2_digitByte hyear (hget 7) (hget 8), ByteParser.ok_bind,
    clock_eq hhour hmin hsec (drop_of_drop h 9), ByteParser.ok_bind]
  rfl

/-- `Tue, 10-Nov-2040 23:50:13`: a year of four digits is refused. -/
theorem parseRfc_four {value rest : List UInt8} {p year mon day : Nat} {b : UInt8} (hyear : year < 100)
    (hmon : mon < 12) (hday : day < 100) (hb : b ≠ ' '.toUInt8)
    (h : value.drop p = digitByte (day / 10) :: digitByte (day % 10) :: '-'.toUInt8 ::
      (u8 (months.getD mon "") ++ '-'.toUInt8 :: digitByte (year / 10) :: digitByte (year % 10) :: b :: rest)) :
    parseRfc value p = fail () := by
  rcases month_months hmon with ⟨a, b, c, hname, hmonth⟩
  rw [hname] at h
  have hget := getElem?_of_drop h
  have hspace : ¬ '-'.toUInt8 = ' '.toUInt8 := by decide
  have hdigits : digits2 value p = .ok day := digits2_digitByte hday (hget 0) (hget 1)
  have hclock : clock value (p + 9) = fail () := by
    rw [clock, expect, ByteParser.read_eq (hget 9), ByteParser.ok_bind, if_neg hb]
    rfl
  rw [parseRfc, hdigits, ByteParser.ok_bind, ByteParser.read_eq (hget 2), ByteParser.ok_bind, if_neg hspace,
    if_pos rfl, hmonth (drop_of_drop h 3), ByteParser.ok_bind, expect_eq (hget 6), ByteParser.ok_bind,
    digits2_digitByte hyear (hget 7) (hget 8), ByteParser.ok_bind, hclock]
  rfl

/-! ## Round trips -/

/-- The fields of a date and a time of the day. -/
def fields (d : Date) (hour min sec : Nat) : ParsedTime := ⟨d.year, d.month - 1, d.day, hour, min, sec⟩

/-- The fields of a time. -/
def fieldsOf (t : Nat) : ParsedTime := fields (dateOf t) (t / 3600 % 24) (t / 60 % 60) (t % 60)

theorem day_le_31 (d : Date) : d.day ≤ 31 := (Calendar.le_of_le_monthLength d.day_le).1

theorem u8_separators :
    u8 ", " = [','.toUInt8, ' '.toUInt8] ∧ u8 " " = [' '.toUInt8] ∧ u8 "-" = ['-'.toUInt8] ∧
      u8 ":" = [':'.toUInt8] :=
  ⟨rfl, rfl, rfl, rfl⟩

theorem ngxHttpTime_eq {t : Nat} (ht : t < 253402300800) :
    ngxHttpTime t = u8 (week.getD ((4 + t / 86400) % 7) "") ++ ','.toUInt8 :: ' '.toUInt8 ::
      digitByte ((dateOf t).day / 10) :: digitByte ((dateOf t).day % 10) :: ' '.toUInt8 ::
      (u8 (months.getD ((dateOf t).month - 1) "") ++ ' '.toUInt8 :: digitByte ((dateOf t).year / 1000) ::
        digitByte ((dateOf t).year / 100 % 10) :: digitByte ((dateOf t).year / 10 % 10) ::
        digitByte ((dateOf t).year % 10) :: clockBytes (t / 3600 % 24) (t / 60 % 60) (t % 60)) := by
  have hday := day_le_31 (dateOf t)
  simp only [ngxHttpTime, ngxGmtime_eq, year_bmod ht, ngxSprintfInt_nat]
  rw [ngxSprintfNum_two (by omega),
    ngxSprintfNum_four ' ' (Nat.le_refl 4) ((by decide : 1000 ≤ 1970).trans (le_year t))
      (Nat.lt_succ_of_le (year_le ht)),
    ngxSprintfNum_two (by omega), ngxSprintfNum_two (by omega), ngxSprintfNum_two (by omega)]
  simp [u8_separators, clockBytes]

theorem parseFields_httpTime {t : Nat} (ht : t < 253402300800) :
    parseFields (ngxHttpTime t) = .ok (fieldsOf t) := by
  rcases week_bytes (Nat.mod_lt (4 + t / 86400) (by decide : 0 < 7)) with ⟨a, b, c, hname, hbytes⟩
  have hday := day_le_31 (dateOf t)
  have hmon := (dateOf t).month_le
  rw [ngxHttpTime_eq ht, hname]
  dsimp only [List.cons_append, List.nil_append]
  rw [parseFields_rfc hbytes (digitByte_ne_space _ (by omega)) (by simp [clockBytes, u8])]
  exact parseRfc_rfc822 (Nat.lt_succ_of_le (year_le ht)) (by omega) (by omega) (by omega) (by omega) (by omega) rfl

theorem inRange_fields (d : Date) {hour min sec : Nat} (hhour : hour < 24) (hmin : min < 60) (hsec : sec < 60) :
    (fields d hour min sec).inRange = true := by
  rcases d with ⟨year, month, day, hyear, hmonth, hle, hday, hlast⟩
  have hrange : (decide (hour ≤ 23) && decide (min ≤ 59) && decide (sec ≤ 59)) = true := by
    simp only [Bool.and_eq_true, decide_eq_true_eq]
    omega
  rw [fields, ParsedTime.inRange, hrange, Bool.true_and]
  by_cases hleap : day = 29 ∧ month - 1 = 1
  · rw [if_pos hleap]
    have hfeb : month = 2 := by omega
    rw [hleap.1, hfeb, Calendar.monthLength, if_pos rfl] at hlast
    split at hlast
    case isTrue h =>
      rcases h with ⟨hfour, hcentury⟩
      simp only [hfour, decide_true, Bool.true_and, Bool.not_eq_true', Bool.and_eq_false_iff,
        decide_eq_false_iff_not, ne_eq, not_not]
      exact hcentury.imp id fun h => by omega
    case isFalse => omega
  · -- the table has 28 days for February
    rw [if_neg hleap]
    simp only [Calendar.monthLength] at hlast
    interval_cases month
    case «2» =>
      have hnot : day ≠ 29 := fun h => hleap ⟨h, rfl⟩
      by_cases h : Calendar.isLeap year
      · simp [h] at hlast
        simp [mdayTable]
        omega
      · simp [h] at hlast
        simp [mdayTable]
        exact hlast
    all_goals
      simp at hlast
      simp [mdayTable]
      exact hlast

theorem time_fields (d : Date) (hour min sec : Nat) (hyear : d.year ≤ 9999) :
    (fields d hour min sec).time =
      Int.bmod (((d.number : Int) - 719468) * 86400 + hour * 3600 + min * 60 + sec) (2 ^ 64) := by
  rcases d with ⟨year, month, day, hpos, hmonth, hle, hday, hlast⟩
  dsimp only at hyear
  have hback : ((year : Int) + (2 ^ 64 - 1)) % 2 ^ 64 = (year - 1 : Nat) := by omega
  refine congrArg (Int.bmod · (2 ^ 64)) ?_
  dsimp only [fields]
  -- January and February are months 11 and 12 of the year before
  by_cases hlow : month ≤ 2
  · have hlow' : month - 1 ≤ 1 := by omega
    simp only [hlow', if_true, hback, Date.number, Date.marchDay, Date.marchYear, Date.marchMonth, hlow,
      Date.yearNumber, Date.monthNumber]
    generalize year - 1 = y
    interval_cases month <;> simp <;> omega
  · have hlow' : ¬month - 1 ≤ 1 := by omega
    simp only [hlow', if_false, Date.number, Date.marchDay, Date.marchYear, Date.marchMonth, hlow,
      Date.yearNumber, Date.monthNumber]
    have hlate : 3 ≤ month := by omega
    interval_cases month <;> simp <;> omega

theorem fieldsOf_inRange (t : Nat) : (fieldsOf t).inRange = true :=
  inRange_fields (dateOf t) (Nat.mod_lt _ (by decide)) (Nat.mod_lt _ (by decide)) (Nat.mod_lt _ (by decide))

theorem fieldsOf_time {t : Nat} (ht : t < 253402300800) : (fieldsOf t).time = t := by
  have htime := time_fields (dateOf t) (t / 3600 % 24) (t / 60 % 60) (t % 60) (year_le ht)
  refine htime.trans ?_
  rw [dateOf_number]
  have hsum : (((t / 86400 + 719468 : Nat) : Int) - 719468) * 86400 + (t / 3600 % 24 : Nat) * 3600 +
      (t / 60 % 60 : Nat) * 60 + (t % 60 : Nat) = t := by
    omega
  rw [hsum]
  exact Int.bmod_eq_of_le_mul_two (by omega) (by omega)

theorem parseTime_of_fields {value : List UInt8} {t : Nat} (ht : t < 253402300800)
    (h : parseFields value = .ok (fieldsOf t)) : ngxHttpParseTime value = .ok (t : Int) := by
  rw [ngxHttpParseTime, h, ByteParser.ok_bind, if_pos (fieldsOf_inRange t), fieldsOf_time ht]
  rfl

theorem ngxHttpCookieTime_eq {t : Nat} (ht : t < 253402300800) :
    ngxHttpCookieTime t = u8 (week.getD ((4 + t / 86400) % 7) "") ++ ','.toUInt8 :: ' '.toUInt8 ::
      digitByte ((dateOf t).day / 10) :: digitByte ((dateOf t).day % 10) :: '-'.toUInt8 ::
      (u8 (months.getD ((dateOf t).month - 1) "") ++ '-'.toUInt8 ::
        ((if (dateOf t).year > 2037 then
          [digitByte ((dateOf t).year / 1000), digitByte ((dateOf t).year / 100 % 10),
            digitByte ((dateOf t).year / 10 % 10), digitByte ((dateOf t).year % 10)]
        else [digitByte ((dateOf t).year % 100 / 10), digitByte ((dateOf t).year % 100 % 10)]) ++
        clockBytes (t / 3600 % 24) (t / 60 % 60) (t % 60))) := by
  have hle := year_le ht
  have hday := day_le_31 (dateOf t)
  have hcentury : ((dateOf t).year : Int).tmod 100 = ((dateOf t).year % 100 : Nat) := rfl
  have hlate : ((dateOf t).year : Int) > 2037 ↔ (dateOf t).year > 2037 := by omega
  simp only [ngxHttpCookieTime, ngxGmtime_eq, year_bmod ht, hcentury, hlate, ngxSprintfInt_nat]
  rw [ngxSprintfNum_two (by omega),
    ngxSprintfNum_four ' ' (Nat.zero_le 4) ((by decide : 1000 ≤ 1970).trans (le_year t)) (Nat.lt_succ_of_le hle),
    ngxSprintfNum_two (by omega), ngxSprintfNum_two (by omega), ngxSprintfNum_two (by omega),
    ngxSprintfNum_two (by omega)]
  split <;> simp [u8_separators, clockBytes]

theorem parseFields_cookieTime {t : Nat} (ht : t < 253402300800) :
    parseFields (ngxHttpCookieTime t) =
      if (dateOf t).year ≤ 2037 then .ok (fieldsOf t) else fail () := by
  rcases week_bytes (Nat.mod_lt (4 + t / 86400) (by decide : 0 < 7)) with ⟨a, b, c, hname, hbytes⟩
  have hday := day_le_31 (dateOf t)
  have hmon := (dateOf t).month_le
  have hle := year_le ht
  have hge := le_year t
  rw [ngxHttpCookieTime_eq ht, hname]
  dsimp only [List.cons_append, List.nil_append]
  by_cases hlate : (dateOf t).year > 2037
  · -- after two digits of the year the parser wants the space before the clock
    rw [if_pos hlate, if_neg (by omega),
      parseFields_rfc hbytes (digitByte_ne_space _ (by omega)) (by simp [clockBytes, u8])]
    have hthousand : (dateOf t).year / 1000 = (dateOf t).year / 100 / 10 :=
      (Nat.div_div_eq_div_mul _ 100 10).symm
    rw [hthousand]
    exact parseRfc_four (by omega) (by omega) (by omega)
      (digitByte_ne_space _ (Nat.mod_lt _ (by decide))) rfl
  · -- two digits say the year, from 1970 to 2069
    rw [if_neg hlate, if_pos (by omega),
      parseFields_rfc hbytes (digitByte_ne_space _ (by omega)) (by simp [clockBytes, u8]),
      parseRfc_rfc850 (by omega) (by omega) (by omega) (by omega) (by omega) (by omega) rfl]
    have hyear : ((dateOf t).year % 100 + if (dateOf t).year % 100 < 70 then 2000 else 1900) =
        (dateOf t).year := by
      split <;> omega
    rw [hyear]
    rfl

/-- The dates that are written are those of the calendar, and are read back: those of headers until the year
9999, and those of cookies until the year 2037, from which on they are refused. -/
theorem http_time_round_trip {t : Nat} (ht : t < 253402300800) :
    ngxGmtime t =
      { sec := t % 60
        min := t / 60 % 60
        hour := t / 3600 % 24
        mday := (epoch.after (t / 86400)).day
        mon := (epoch.after (t / 86400)).month
        year := (epoch.after (t / 86400)).year
        wday := (4 + t / 86400) % 7 } ∧
    ngxHttpParseTime (ngxHttpTime t) = .ok (t : Int) ∧ (ngxHttpTime t).length = 29 ∧
    ngxHttpParseTime (ngxHttpCookieTime t) =
      if (epoch.after (t / 86400)).year ≤ 2037 then .ok (t : Int) else fail () := by
  refine ⟨?_, parseTime_of_fields ht (parseFields_httpTime ht), ?_, ?_⟩
  · rw [ngxGmtime_eq, year_bmod ht]
    rfl
  · rcases week_bytes (Nat.mod_lt (4 + t / 86400) (by decide : 0 < 7)) with ⟨a, b, c, hname, -⟩
    have hmon := (dateOf t).month_le
    rcases month_months (i := (dateOf t).month - 1) (by omega) with ⟨d, e, f, hmonth, -⟩
    rw [ngxHttpTime_eq ht, hname, hmonth]
    rfl
  · have hparse := parseFields_cookieTime ht
    have hyear : (epoch.after (t / 86400)).year = (dateOf t).year := rfl
    rw [hyear]
    split
    case isTrue h =>
      rw [if_pos h] at hparse
      exact parseTime_of_fields ht hparse
    case isFalse h =>
      rw [if_neg h] at hparse
      rw [ngxHttpParseTime, hparse]
      rfl

theorem http_time_round_trip_billennium :
    ngxHttpParseTime (ngxHttpTime 1000000000) = .ok 1000000000 :=
  (http_time_round_trip (t := 1000000000) (by decide)).2.1

/-! ## Whatever is read -/

section Reads

open ByteParser (Ensures)

variable {value : List UInt8} {p : Nat}

theorem digit_ensures (h : p < value.length) : Ensures (digit value p) (· < 10) := by
  refine (Ensures.read h).bind fun b _ => .ite (fun hdigit => .pure ?_) fun _ => .fail ()
  simp only [isDigit, Bool.and_eq_true, decide_eq_true_eq] at hdigit
  have hle : b.toNat ≤ 57 := hdigit.2
  omega

theorem digits2_ensures (h : p + 1 < value.length) : Ensures (digits2 value p) (· < 100) := by
  refine (digit_ensures (Nat.lt_of_succ_lt h)).bind fun a ha => (digit_ensures h).bind fun b hb => .pure ?_
  omega

theorem digits4_ensures (h : p + 3 < value.length) : Ensures (digits4 value p) (· < 10000) := by
  refine (digits2_ensures (by omega)).bind fun a ha => (digits2_ensures (by omega)).bind fun b hb => .pure ?_
  omega

theorem expect_ensures (b : Char) (h : p < value.length) : Ensures (expect b value p) fun _ => True :=
  (Ensures.read h).bind fun _ _ => .ite (fun _ => .pure trivial) fun _ => .fail ()

theorem month_ensures (h : p + 2 < value.length) : Ensures (month value p) (· < 12) := by
  have hname : ∀ {i j : Nat} (b c : UInt8), i < 12 → j < 12 → (if c = b then i else j) < 12 := by
    intro i j b c hi hj
    split
    case isTrue => exact hi
    case isFalse => exact hj
  refine (Ensures.read (by omega)).bind fun b _ => ?_
  refine .ite (fun _ => ?_) fun _ => ?_
  · refine (Ensures.read (by omega)).bind fun c _ => .ite (fun _ => .pure (by decide)) fun _ => ?_
    exact (Ensures.read h).bind fun c _ => .pure (hname _ _ (by decide) (by decide))
  refine .ite (fun _ => .pure (by decide)) fun _ => .ite (fun _ => ?_) fun _ => .ite (fun _ => ?_) fun _ => ?_
  · exact (Ensures.read h).bind fun c _ => .pure (hname _ _ (by decide) (by decide))
  · exact (Ensures.read (by omega)).bind fun c _ => .pure (hname _ _ (by decide) (by decide))
  exact .ite (fun _ => .pure (by decide)) fun _ => .ite (fun _ => .pure (by decide)) fun _ =>
    .ite (fun _ => .pure (by decide)) fun _ => .ite (fun _ => .pure (by decide)) fun _ => .fail ()

theorem clock_ensures (h : p + 8 < value.length) : Ensures (clock value p) fun _ => True := by
  refine (expect_ensures ' ' (by omega)).bind fun _ _ => (digits2_ensures (by omega)).bind fun hour _ => ?_
  refine (expect_ensures ':' (by omega)).bind fun _ _ => (digits2_ensures (by omega)).bind fun min _ => ?_
  exact (expect_ensures ':' (by omega)).bind fun _ _ => (digits2_ensures (by omega)).bind fun sec _ =>
    .pure trivial

theorem parseRfc_ensures (h : p + 18 ≤ value.length) :
    Ensures (parseRfc value p) fun f => f.year < 10000 ∧ f.month < 12 := by
  refine (digits2_ensures (by omega)).bind fun day _ => (Ensures.read (by omega)).bind fun b _ => ?_
  refine .ite (fun _ => .ite (fun _ => .fail ()) fun hlong => ?_) fun _ => .ite (fun _ => ?_) fun _ => .fail ()
  · refine (month_ensures (by omega)).bind fun month hmonth => (expect_ensures ' ' (by omega)).bind fun _ _ => ?_
    refine (digits4_ensures (by omega)).bind fun year hyear => (clock_ensures (by omega)).bind fun time _ => ?_
    exact .pure ⟨hyear, hmonth⟩
  · refine (month_ensures (by omega)).bind fun month hmonth => (expect_ensures '-' (by omega)).bind fun _ _ => ?_
    refine (digits2_ensures (by omega)).bind fun year hyear => (clock_ensures (by omega)).bind fun time _ => ?_
    refine .pure ⟨?_, hmonth⟩
    dsimp only
    split <;> omega

theorem dayIsoc_ensures (h : p + 1 < value.length) :
    Ensures (dayIsoc value p) fun r => r.2 ≤ p + 2 := by
  refine (digit_ensures (by omega)).bind fun day _ => (Ensures.read h).bind fun b _ => ?_
  refine .ite (fun _ => .pure ?_) fun _ => (digit_ensures h).bind fun c _ => .pure ?_
  · exact Nat.le_succ _
  · exact Nat.le_refl _

theorem parseIsoc_ensures (h : p + 18 ≤ value.length) :
    Ensures (parseIsoc value p) fun f => f.year < 10000 ∧ f.month < 12 := by
  refine (month_ensures (by omega)).bind fun month hmonth => (Ensures.read (by omega)).bind fun b _ => ?_
  have hday : (if b = ' '.toUInt8 then p + 5 else p + 4) + 1 < value.length := by
    split <;> omega
  refine (dayIsoc_ensures hday).bind fun r _ => .ite (fun _ => .fail ()) fun hlong => ?_
  refine (clock_ensures (by omega)).bind fun time _ => (expect_ensures ' ' (by omega)).bind fun _ _ => ?_
  exact (digits4_ensures (by omega)).bind fun year hyear => .pure ⟨hyear, hmonth⟩

theorem parseFields_ensures (value : List UInt8) :
    Ensures (parseFields value) fun f => f.year < 10000 ∧ f.month < 12 :=
  .ite (fun _ => .fail ()) fun hlong =>
    .ite (fun _ => parseIsoc_ensures (Nat.le_of_not_lt hlong)) fun _ =>
      parseRfc_ensures (Nat.le_of_not_lt hlong)

end Reads

/-- Fields in range are those of a date, if the day is not 0. -/
theorem exists_date {f : ParsedTime} (hrange : f.inRange = true) (hmonth : f.month < 12) (hyear : 0 < f.year)
    (hday : 0 < f.day) :
    f.hour < 24 ∧ f.min < 60 ∧ f.sec < 60 ∧ ∃ d : Date, f = fields d f.hour f.min f.sec := by
  rcases f with ⟨year, month, day, hour, min, sec⟩
  rw [ParsedTime.inRange, Bool.and_eq_true, Bool.and_eq_true, Bool.and_eq_true] at hrange
  rcases hrange with ⟨⟨⟨hhour, hmin⟩, hsec⟩, hlast⟩
  simp only [decide_eq_true_eq] at hhour hmin hsec hlast
  have hle : day ≤ Calendar.monthLength year (month + 1) := by
    by_cases hleap : day = 29 ∧ month = 1
    · rw [if_pos hleap] at hlast
      rcases hleap with ⟨rfl, rfl⟩
      have hyear : Calendar.isLeap year := by
        simp at hlast
        exact ⟨hlast.1, by omega⟩
      rw [Calendar.monthLength, if_pos rfl, if_pos hyear]
    · rw [if_neg hleap] at hlast
      simp only [decide_eq_true_eq] at hlast
      have hfeb : month = 1 → day ≠ 29 := fun h h' => hleap ⟨h', h⟩
      dsimp only at hmonth
      interval_cases month
      case «1» =>
        have hshort : day ≤ 28 := hlast
        rw [Calendar.monthLength, if_pos rfl]
        split <;> omega
      all_goals exact hlast
  refine ⟨Nat.lt_succ_of_le hhour, Nat.lt_succ_of_le hmin, Nat.lt_succ_of_le hsec,
    ⟨year, month + 1, day, hyear, Nat.succ_pos month, hmonth, hday, hle⟩, rfl⟩

theorem number_bounds {d : Date} (hlow : 1970 ≤ d.year) (hhigh : d.year < 10000) :
    719468 ≤ d.number ∧ d.number < 3652365 := by
  have hlate := (month_estimate d).2.2
  have hlt := d.marchDay_lt
  have hmarch : d.marchYear = if d.month ≤ 2 then d.year - 1 else d.year := rfl
  have hlen : (if Calendar.isLeap (d.marchYear + 1) then 366 else 365) ≤ 366 := by
    by_cases hleap : Calendar.isLeap (d.marchYear + 1)
    · rw [if_pos hleap]
    · rw [if_neg hleap]
      decide
  rw [Date.number]
  generalize d.marchDay = day at hlate hlt
  have hlast : Date.yearNumber 1969 = 719162 ∧ Date.yearNumber 1970 = 719527 ∧ Date.yearNumber 9998 = 3651694 ∧
      Date.yearNumber 9999 = 3652059 := by decide
  by_cases hearly : d.month ≤ 2
  · rw [if_pos hearly] at hmarch
    have hday := hlate.2 hearly
    have hge := Date.yearNumber_mono (by omega : 1969 ≤ d.marchYear)
    have hle := Date.yearNumber_mono (by omega : d.marchYear ≤ 9998)
    omega
  · rw [if_neg hearly] at hmarch
    have hday := mt hlate.1 hearly
    have hge := Date.yearNumber_mono (by omega : 1970 ≤ d.marchYear)
    have hle := Date.yearNumber_mono (by omega : d.marchYear ≤ 9999)
    omega

/-- Whatever the bytes are, nothing outside them is read.  What is accepted is a date of the calendar, from
1970 on and unless the day is 0, and the result is its time. -/
theorem parse_time_sound (value : List UInt8) :
    ngxHttpParseTime value ≠ .error .outside ∧
    ∀ t, ngxHttpParseTime value = .ok t → ∃ f, parseFields value = .ok f ∧
      (1970 ≤ f.year → 0 < f.day → 0 ≤ t ∧ t < 253402300800 ∧
        ∃ wday, ngxGmtime t.toNat = ⟨f.sec, f.min, f.hour, f.day, f.month + 1, f.year, wday⟩) := by
  have hreads := parseFields_ensures value
  refine ⟨?_, fun t ht => ?_⟩
  · exact (hreads.bind (R := fun _ => True) fun f _ => .ite (fun _ => .pure trivial) fun _ => .fail ()).ne_outside
  rw [ngxHttpParseTime] at ht
  cases hfields : parseFields value with
  | error stop =>
      rw [hfields] at ht
      cases ht
  | ok f =>
      rw [hfields] at hreads ht
      rcases hreads with ⟨hyear, hmonth⟩
      rw [ByteParser.ok_bind] at ht
      refine ⟨f, rfl, fun hlow hday => ?_⟩
      by_cases hrange : f.inRange = true
      · rw [if_pos hrange] at ht
        cases ht
        rcases exists_date hrange hmonth (by omega) hday with ⟨hhour, hmin, hsec, d, hd⟩
        have hdate : f.year = d.year ∧ f.month + 1 = d.month ∧ f.day = d.day := by
          have hpos := d.month_pos
          rw [hd]
          exact ⟨rfl, Nat.sub_add_cancel hpos, rfl⟩
        -- the sum does not overflow
        have htime := time_fields d f.hour f.min f.sec (by omega)
        rw [← hd] at htime
        rcases number_bounds (d := d) (by omega) (by omega) with ⟨hge, hlt⟩
        have hvalue : f.time = ((d.number - 719468) * 86400 + f.hour * 3600 + f.min * 60 + f.sec : Nat) := by
          rw [htime, Int.bmod_eq_of_le_mul_two (by omega) (by omega)]
          omega
        rw [hvalue]
        refine ⟨by omega, by omega, ?_⟩
        -- `ngx_gmtime` counts the same days back
        generalize hn : (d.number - 719468) * 86400 + f.hour * 3600 + f.min * 60 + f.sec = n
        have hdays : n / 86400 + 719527 - (31 + 28) = d.number := by omega
        refine ⟨(4 + n / 86400) % 7, ?_⟩
        simp only [Int.toNat_natCast, ngxGmtime, hdays, ngxGmdate_number, NgxTm.mk.injEq, and_true]
        refine ⟨by omega, by omega, by omega, hdate.2.2.symm, hdate.2.1.symm, ?_⟩
        rw [Int.bmod_eq_of_le_mul_two (by omega) (by omega), hdate.1]
      · rw [if_neg hrange] at ht
        cases ht

end Ngx
end CppPractice
