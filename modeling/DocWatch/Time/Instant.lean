import DocWatch.Binary64.Written

/-!
# Instants

A point of time as whole seconds since the beginning of 1970 and nanoseconds.
The nanoseconds of a leap second run on beyond one second, so that an instant
inside it stays in the second before it. Dates are those of the Gregorian
calendar, also before it was introduced.
-/

namespace DocWatch.Time

/-- A point of time. -/
structure Instant where
  seconds : Int
  /-- Below one thousand million, or below twice that in a leap second. -/
  nanos : Nat
  deriving DecidableEq, Repr

/-- A date of the Gregorian calendar. -/
structure Date where
  year : Int
  month : Nat
  day : Nat
  deriving DecidableEq, Repr

/-- Whether a year has a leap day. -/
def isLeapYear (year : Int) : Bool :=
  year % 4 = 0 && (year % 100 ≠ 0 || year % 400 = 0)

/-- The number of days of a month. -/
def daysInMonth (year : Int) (month : Nat) : Nat :=
  match month with
  | 2 => if isLeapYear year then 29 else 28
  | 4 | 6 | 9 | 11 => 30
  | _ => 31

/-- Whether a date is in the calendar. -/
def Date.valid (d : Date) : Bool :=
  1 ≤ d.month && d.month ≤ 12 && 1 ≤ d.day && d.day ≤ daysInMonth d.year d.month

/-- Days from the beginning of 1970 to a date. Years begin in March here, so
that the leap day ends one. -/
def Date.toDays (d : Date) : Int :=
  let y := if d.month ≤ 2 then d.year - 1 else d.year
  let era := y.fdiv 400
  let yearOfEra := y - era * 400
  let monthFromMarch : Int := ((d.month : Int) + 9) % 12
  let dayOfYear := (153 * monthFromMarch + 2) / 5 + d.day - 1
  let dayOfEra := yearOfEra * 365 + yearOfEra / 4 - yearOfEra / 100 + dayOfYear
  era * 146097 + dayOfEra - 719468

/-- The date that is a number of days after the beginning of 1970. -/
def Date.ofDays (days : Int) : Date :=
  let z := days + 719468
  let era := z.fdiv 146097
  let dayOfEra := z - era * 146097
  let yearOfEra := (dayOfEra - dayOfEra / 1460 + dayOfEra / 36524 - dayOfEra / 146096) / 365
  let dayOfYear := dayOfEra - (365 * yearOfEra + yearOfEra / 4 - yearOfEra / 100)
  let monthFromMarch := (5 * dayOfYear + 2) / 153
  let day := dayOfYear - (153 * monthFromMarch + 2) / 5 + 1
  let month := if monthFromMarch < 10 then monthFromMarch + 3 else monthFromMarch - 9
  let year := yearOfEra + era * 400
  ⟨if month ≤ 2 then year + 1 else year, month.toNat, day.toNat⟩

namespace Instant

/-- The first and the last whole second that an instant may have. -/
def earliest : Int := -8334601228800

/-- The last whole second that an instant may have. -/
def latest : Int := 8210266876799

/-- Whether a whole second is in range. -/
def inRange (seconds : Int) : Bool :=
  earliest ≤ seconds && seconds ≤ latest

/-- Milliseconds since the beginning of 1970, cut off towards the past. -/
def millis (t : Instant) : Int :=
  t.seconds * 1000 + (t.nanos / 1000000 : Nat)

/-- Whether an instant is before another. -/
def before (a b : Instant) : Bool :=
  a.seconds < b.seconds || (a.seconds = b.seconds && a.nanos < b.nanos)

/-- A number with at least two digits. -/
def twoDigits (n : Nat) : List Char :=
  Binary64.padFront 2 (Binary64.decimal n)

/-- A year with at least four digits, signed beyond these. -/
def yearText (year : Int) : List Char :=
  if 0 ≤ year ∧ year ≤ 9999 then Binary64.padFront 4 (Binary64.decimal year.toNat)
  else (if year < 0 then '-' else '+') :: Binary64.padFront 4 (Binary64.decimal year.natAbs)

/-- The fraction of a second in three, six or nine digits, as many as it needs. -/
def fractionText (nanos : Nat) : List Char :=
  if nanos = 0 then []
  else if nanos % 1000000 = 0 then '.' :: Binary64.padFront 3 (Binary64.decimal (nanos / 1000000))
  else if nanos % 1000 = 0 then '.' :: Binary64.padFront 6 (Binary64.decimal (nanos / 1000))
  else '.' :: Binary64.padFront 9 (Binary64.decimal nanos)

/-- An instant in the form of RFC 3339, in universal time. -/
def text (t : Instant) : String :=
  let days := t.seconds.fdiv 86400
  let second := (t.seconds - days * 86400).toNat
  let d := Date.ofDays days
  String.ofList
    (yearText d.year ++ '-' :: twoDigits d.month ++ '-' :: twoDigits d.day ++ 'T' ::
      twoDigits (second / 3600) ++ ':' :: twoDigits (second / 60 % 60) ++ ':' ::
      twoDigits (second % 60 + t.nanos / 1000000000) ++
      fractionText (t.nanos % 1000000000) ++ ['Z'])

end Instant

end DocWatch.Time
