import Mathlib.Algebra.Ring.Int.Defs
import Mathlib.Algebra.Ring.Nat

/-!
# Calendar time

`os_mktime` of `port/wpa/os_port.c`, and the calendar: which days there are and which one comes
after which.
-/

namespace Net80211.Wpa

/-- `-1`, a sum or a product that is beyond an `int`, or `*t`. -/
inductive Mktime where
  | rejected
  | overflow
  | time (t : Int)
  deriving DecidableEq

/-- `days_before_month`. -/
def daysBeforeMonth : List Int := [0, 31, 59, 90, 120, 151, 181, 212, 243, 273, 304, 334]

def isLeap (year : Int) : Bool := year % 4 = 0 && year % 100 ≠ 0 || year % 400 = 0

/-- What is added up to `days`, in the order of the source. -/
def mktimeTerms (year month day : Int) : List Int :=
  [365 * (year - 1970), (year - 1969) / 4, -((year - 1901) / 100), (year - 1601) / 400,
    daysBeforeMonth.getD (month - 1).toNat 0, if month > 2 && isLeap year then 1 else 0, day, -1]

/-- `os_mktime`. The days are summed up in an `int`, and the hours and minutes multiplied. -/
def osMktime (year month day hour min sec : Int) : Mktime :=
  if year < 1970 || month < 1 || month > 12 || day < 1 || day > 31 then .rejected
  else if ((mktimeTerms year month day).scanl (· + ·) 0).all (· < 2 ^ 31) &&
      [hour * 3600, min * 60].all (fun x => -2 ^ 31 ≤ x && x < 2 ^ 31) then
    .time ((mktimeTerms year month day).sum * 86400 + hour * 3600 + min * 60 + sec)
  else .overflow

/-! ## The calendar -/

def monthLength (year month : Int) : Int :=
  if month = 2 then if isLeap year then 29 else 28
  else if month = 4 ∨ month = 6 ∨ month = 9 ∨ month = 11 then 30
  else 31

/-- A year, a month and a day. -/
abbrev Date := Int × Int × Int

def IsDate : Date → Prop
  | (year, month, day) => 1 ≤ month ∧ month ≤ 12 ∧ 1 ≤ day ∧ day ≤ monthLength year month

def nextDay : Date → Date
  | (year, month, day) =>
    if day < monthLength year month then (year, month, day + 1)
    else if month < 12 then (year, month + 1, 1)
    else (year + 1, 1, 1)

end Net80211.Wpa
