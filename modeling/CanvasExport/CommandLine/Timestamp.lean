/-
Module: CanvasExport.CommandLine.Timestamp
Layer: CommandLine
Purpose: Moments in written form. A moment is the number of seconds since the start of 1970 in universal time
  and the nanoseconds within the second; its text is the date, the time and as many digits of the fraction,
  in groups of three, as it has.
Main exports: timestampText
-/
import CanvasExport.Text.Basic

namespace CanvasExport.CommandLine

/-- A number with at least so many digits. -/
def paddedNumeral (width n : Nat) : Text :=
  let digits := Text.numeral n
  List.replicate (width - digits.length) '0' ++ digits

/-- A day of the calendar. -/
structure CalendarDay where
  year : Nat
  month : Nat
  day : Nat
deriving DecidableEq, Repr, Inhabited

/-- The calendar day that lies so many days after the first of January 1970. Years are taken to begin in
    March, so that the day that only leap years have comes last; 719468 days lie between the first of March
    of the year zero and 1970. -/
def calendarDay (days : Nat) : CalendarDay :=
  let n := days + 719468
  let era := n / 146097
  let dayOfEra := n % 146097
  let yearOfEra := (dayOfEra - dayOfEra / 1460 + dayOfEra / 36524 - dayOfEra / 146096) / 365
  let dayOfYear := dayOfEra - (365 * yearOfEra + yearOfEra / 4 - yearOfEra / 100)
  let monthFromMarch := (5 * dayOfYear + 2) / 153
  let day := dayOfYear - (153 * monthFromMarch + 2) / 5 + 1
  let month := if monthFromMarch < 10 then monthFromMarch + 3 else monthFromMarch - 9
  ⟨era * 400 + yearOfEra + if month ≤ 2 then 1 else 0, month, day⟩

/-- The fraction of a second, with nothing for a full one. -/
def fractionText (nanoseconds : Nat) : Text :=
  if nanoseconds = 0 then []
  else if nanoseconds % 1000000 = 0 then '.' :: paddedNumeral 3 (nanoseconds / 1000000)
  else if nanoseconds % 1000 = 0 then '.' :: paddedNumeral 6 (nanoseconds / 1000)
  else '.' :: paddedNumeral 9 nanoseconds

/-- The text of a moment. -/
def timestampText (seconds nanoseconds : Nat) : Text :=
  let date := calendarDay (seconds / 86400)
  let clock := seconds % 86400
  paddedNumeral 4 date.year ++ ['-'] ++ paddedNumeral 2 date.month ++ ['-'] ++ paddedNumeral 2 date.day
    ++ ['T'] ++ paddedNumeral 2 (clock / 3600) ++ [':'] ++ paddedNumeral 2 (clock / 60 % 60)
    ++ [':'] ++ paddedNumeral 2 (clock % 60) ++ fractionText nanoseconds ++ ['Z']

end CanvasExport.CommandLine
