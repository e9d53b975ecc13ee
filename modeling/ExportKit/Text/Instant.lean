import ExportKit.Text.Digits

/-!
Points in time as text: date and time of day in universal time, in the calendar that has a leap
year every four years except in three of four centuries.
-/
namespace ExportKit

/-- A point in time, in nanoseconds since the beginning of 1970. -/
structure Instant where
  nanoseconds : Nat
  deriving DecidableEq

structure Date where
  year : Nat
  month : Nat
  day : Nat
  deriving DecidableEq, Repr

/-- The day that comes a number of days after the first of March of the year 0. Years that begin
in March end with their leap day, so that the months before it always have the same lengths. -/
def Date.ofMarchDays (days : Nat) : Date :=
  let cycle := days / 146097
  let dayOfCycle := days % 146097
  let yearOfCycle :=
    (dayOfCycle - dayOfCycle / 1460 + dayOfCycle / 36524 - dayOfCycle / 146096) / 365
  let dayOfYear := dayOfCycle - (365 * yearOfCycle + yearOfCycle / 4 - yearOfCycle / 100)
  let month := (5 * dayOfYear + 2) / 153
  { year := 400 * cycle + yearOfCycle + (if month < 10 then 0 else 1)
    month := if month < 10 then month + 3 else month - 9
    day := dayOfYear - (153 * month + 2) / 5 + 1 }

namespace Instant

def padded (count n : Nat) : List Char :=
  let digits := Digits.write n
  List.replicate (count - digits.length) '0' ++ digits

def date (instant : Instant) : Date :=
  .ofMarchDays (instant.nanoseconds / 1000000000 / 86400 + 719468)

/-- The part of a second: none, or as many groups of three digits as it needs. -/
def fraction (nanoseconds : Nat) : List Char :=
  if nanoseconds = 0 then []
  else if nanoseconds % 1000000 = 0 then '.' :: padded 3 (nanoseconds / 1000000)
  else if nanoseconds % 1000 = 0 then '.' :: padded 6 (nanoseconds / 1000)
  else '.' :: padded 9 nanoseconds

def wholeSeconds (instant : Instant) : List Char :=
  let second := instant.nanoseconds / 1000000000 % 86400
  let date := instant.date
  padded 4 date.year ++ '-' :: (padded 2 date.month ++ '-' :: (padded 2 date.day ++
    'T' :: (padded 2 (second / 3600) ++ ':' :: (padded 2 (second / 60 % 60) ++
    ':' :: padded 2 (second % 60)))))

def text (instant : Instant) : String :=
  String.ofList (instant.wholeSeconds ++ fraction (instant.nanoseconds % 1000000000) ++
    "+00:00".toList)

/-- The text of a point in time with exactly six digits after the point. -/
def microText (instant : Instant) : String :=
  String.ofList (instant.wholeSeconds ++
    '.' :: (padded 6 (instant.nanoseconds % 1000000000 / 1000) ++ ['Z']))

def milliseconds (instant : Instant) : Nat := instant.nanoseconds / 1000000

end Instant

end ExportKit
