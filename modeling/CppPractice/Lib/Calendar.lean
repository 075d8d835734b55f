import Mathlib.Logic.Function.Iterate
import Mathlib.Tactic.IntervalCases

/-!
# Calendar — the Gregorian calendar, day by day

A date carries that its month has its day, and `Date.next` is the day after it: what the calendar is for.
`Date.number` is Gauss' formula, which counts the days since March 1 of the year before year 1, with years
that start in March.  It counts `next` (`number_next`), so it gives the date after any number of days.
-/

namespace CppPractice
namespace Calendar

def isLeap (year : Nat) : Prop := year % 4 = 0 ∧ (year % 100 ≠ 0 ∨ year % 400 = 0)

instance (year : Nat) : Decidable (isLeap year) := inferInstanceAs (Decidable (_ ∧ _))

def monthLength (year month : Nat) : Nat :=
  if month = 2 then if isLeap year then 29 else 28
  else if month = 4 ∨ month = 6 ∨ month = 9 ∨ month = 11 then 30
  else 31

/-- A day of the calendar from year 1 on; months and days count from 1. -/
@[ext] structure Date where
  year : Nat
  month : Nat
  day : Nat
  year_pos : 0 < year
  month_pos : 0 < month
  month_le : month ≤ 12
  day_pos : 0 < day
  day_le : day ≤ monthLength year month
  deriving DecidableEq

theorem le_of_le_monthLength {year month day : Nat} (h : day ≤ monthLength year month) :
    day ≤ 31 ∧ (month = 2 → day ≤ 29) ∧
      (month = 4 ∨ month = 6 ∨ month = 9 ∨ month = 11 → day ≤ 30) := by
  unfold monthLength at h
  split at h
  case isTrue => split at h <;> omega
  case isFalse => split at h <;> omega

theorem monthLength_pos (year month : Nat) : 0 < monthLength year month := by
  unfold monthLength
  split
  case isTrue => split <;> omega
  case isFalse => split <;> omega

namespace Date

def newYear (year : Nat) (h : 0 < year) : Date where
  year := year
  month := 1
  day := 1
  year_pos := h
  month_pos := Nat.one_pos
  month_le := by decide
  day_pos := Nat.one_pos
  day_le := monthLength_pos _ _

/-- The day after. -/
def next (d : Date) : Date :=
  if h : d.day < monthLength d.year d.month then
    { d with day := d.day + 1, day_pos := Nat.succ_pos _, day_le := h }
  else if hm : d.month < 12 then
    { d with
      month := d.month + 1
      day := 1
      month_pos := Nat.succ_pos _
      month_le := hm
      day_pos := Nat.one_pos
      day_le := monthLength_pos _ _ }
  else newYear (d.year + 1) (Nat.succ_pos _)

/-- The date `n` days after. -/
def after (n : Nat) (d : Date) : Date := next^[n] d

/-! ## Gauss' formula -/

/-- The days of the years before, which start in March. -/
def yearNumber (year : Nat) : Nat := 365 * year + year / 4 - year / 100 + year / 400

/-- The days of the months before, March being month 1. -/
def monthNumber (month : Nat) : Nat := 367 * month / 12 - 30

/-- The year that started in March. -/
def marchYear (d : Date) : Nat := if d.month ≤ 2 then d.year - 1 else d.year

def marchMonth (d : Date) : Nat := if d.month ≤ 2 then d.month + 10 else d.month - 2

/-- The day within the year that started in March, from 0 on. -/
def marchDay (d : Date) : Nat := monthNumber d.marchMonth + (d.day - 1)

def number (d : Date) : Nat := yearNumber d.marchYear + d.marchDay

theorem yearNumber_succ (year : Nat) :
    yearNumber (year + 1) = yearNumber year + if isLeap (year + 1) then 366 else 365 := by
  have hdiv : ∀ k, (year + 1) / k = year / k + if (year + 1) % k = 0 then 1 else 0 := by
    intro k
    rw [Nat.succ_div]
    simp only [Nat.dvd_iff_mod_eq_zero]
  have hless : year / 100 ≤ year / 4 := Nat.div_le_div_left (by decide) (by decide)
  have hless' : (year + 1) / 100 ≤ (year + 1) / 4 := Nat.div_le_div_left (by decide) (by decide)
  have h4 := hdiv 4
  have h100 := hdiv 100
  have h400 := hdiv 400
  have hcentury : (year + 1) % 100 = 0 → (year + 1) % 4 = 0 := by omega
  have hfourth : (year + 1) % 400 = 0 → (year + 1) % 100 = 0 := by omega
  by_cases hleap : isLeap (year + 1)
  · rw [if_pos hleap, yearNumber, yearNumber]
    rcases hleap with ⟨hmod4, hmod⟩
    rw [if_pos hmod4] at h4
    rcases hmod with hmod100 | hmod400
    · rw [if_neg hmod100] at h100
      rw [if_neg (mt hfourth hmod100)] at h400
      omega
    · rw [if_pos (hfourth hmod400)] at h100
      rw [if_pos hmod400] at h400
      omega
  · rw [if_neg hleap, yearNumber, yearNumber]
    by_cases hmod4 : (year + 1) % 4 = 0
    · have hmod : (year + 1) % 100 = 0 ∧ (year + 1) % 400 ≠ 0 := by
        simp only [isLeap, not_and_or, not_or, not_not] at hleap
        exact hleap.resolve_left (fun hnot => hnot hmod4)
      rw [if_pos hmod4] at h4
      rw [if_pos hmod.1] at h100
      rw [if_neg hmod.2] at h400
      omega
    · have hmod100 := mt hcentury hmod4
      rw [if_neg hmod4] at h4
      rw [if_neg hmod100] at h100
      rw [if_neg (mt hfourth hmod100)] at h400
      omega

theorem yearNumber_mono {a b : Nat} (h : a ≤ b) : yearNumber a ≤ yearNumber b := by
  induction h with
  | refl => exact Nat.le_refl _
  | step _ ih =>
      rw [yearNumber_succ]
      exact Nat.le_add_right_of_le ih

theorem number_next (d : Date) : d.next.number = d.number + 1 := by
  rcases d with ⟨year, month, day, hyear, hmonth, hle, hday, hlast⟩
  rw [next]
  split
  case isTrue h =>
    simp only [number, marchDay, marchYear, marchMonth]
    omega
  case isFalse h =>
    have hend : day = monthLength year month := by
      dsimp only at h
      omega
    subst hend
    split
    case isTrue hm =>
      dsimp only at hm
      have hsucc := yearNumber_succ (year - 1)
      rw [Nat.sub_add_cancel hyear] at hsucc
      interval_cases month <;>
        simp [number, marchDay, marchYear, marchMonth, monthNumber, monthLength, hsucc]
      split <;> omega
    case isFalse hm =>
      have hdec : month = 12 := by
        dsimp only at hm
        omega
      subst hdec
      simp [number, marchDay, marchYear, marchMonth, monthNumber, monthLength, newYear]

theorem number_after (n : Nat) (d : Date) : (d.after n).number = d.number + n := by
  induction n with
  | zero => rfl
  | succ n ih =>
      rw [after, Function.iterate_succ_apply', number_next]
      exact congrArg (· + 1) ih

/-- A year from March to March. -/
theorem marchDay_lt (d : Date) : d.marchDay < if isLeap (d.marchYear + 1) then 366 else 365 := by
  rcases d with ⟨year, month, day, hyear, hmonth, hle, hday, hlast⟩
  simp only [marchDay, marchYear, marchMonth]
  have hback : year - 1 + 1 = year := Nat.sub_add_cancel hyear
  have hshort : ∀ y, 365 ≤ if isLeap y then 366 else 365 := by
    intro y
    by_cases hleap : isLeap y
    · rw [if_pos hleap]
      decide
    · rw [if_neg hleap]
  interval_cases month
  case «2» =>
    by_cases hleap : isLeap year
    · simp [monthLength, hleap] at hlast
      simp [monthNumber, hback, hleap]
      omega
    · simp [monthLength, hleap] at hlast
      simp [monthNumber, hback, hleap]
      omega
  all_goals
    simp [monthLength] at hlast
    refine Nat.lt_of_lt_of_le ?_ (hshort _)
    simp [monthNumber]
    omega

end Date

end Calendar
end CppPractice
