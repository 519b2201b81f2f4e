import Murlan.Base.Gregorian
import Murlan.Spec.Quests

/-!
# The week key of any instant

`isoWeekKey` of `rewards/quests.ts` with the dates of the language: an instant is a number of
milliseconds from 1970 on, before or after, and `Date.UTC` reads the years 0 to 99 as 1900 to
1999. (`Murlan.isoWeekKey` is the same function from 1970 on.)
-/

namespace Murlan.Calendar

open Gregorian

/-- The day of an instant. -/
def dayOf (now : ℤ) : ℤ := now / 86400000

/-- The year that `Date.UTC` takes a number for. -/
def fullYear (y : ℤ) : ℤ := if 0 ≤ y ∧ y ≤ 99 then 1900 + y else y

/-- `Date.UTC(year, month, date)`, in days. -/
def dateUTC (y : ℤ) (month : ℕ) (date : ℤ) : ℤ := makeDay (fullYear y) month date

/-- `getUTCDay()`: Sunday is 0. -/
def utcDay (d : ℤ) : ℤ := (d + 4) % 7

/-- `setUTCDate(date)` -/
def setUTCDate (d date : ℤ) : ℤ := makeDay (civil d).1 (civil d).2.1 date

/-- `String(n)` -/
def decimal (n : ℤ) : List Char := if n < 0 then '-' :: Nat.toDigits 10 n.natAbs else Nat.toDigits 10 n.toNat

/-- The ISO week of an instant, as the source writes it. -/
def isoWeekKey (now : ℤ) : String :=
  let d := civil (dayOf now)
  let date := dateUTC d.1 d.2.1 d.2.2
  let isoDay := if utcDay date = 0 then 7 else utcDay date
  -- the Thursday of the week decides the year
  let thursday := setUTCDate date ((civil date).2.2 + 4 - isoDay)
  let weekYear := yearOf thursday
  let start := dateUTC weekYear 0 1
  let week := (thursday - start + 1 + 6) / 7
  String.ofList (decimal weekYear ++ '-' :: 'W' :: (decimal week).leftpad 2 '0')

/-- The year of an instant. -/
def getUTCFullYear (now : ℤ) : ℤ := yearOf (dayOf now)

end Murlan.Calendar
