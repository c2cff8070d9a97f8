import DocWatch.Binary64.Reading
import DocWatch.Text.Blank
import DocWatch.Time.Instant

/-!
# Reading points of time

A point of time is given in seconds since the beginning of 1970, in any decimal
form, or as a date and a time of day with an offset, in the form of RFC 3339. A
number that is out of range is tried as a date as well, which it never is.
-/

namespace DocWatch.Time

/-- What keeps a text from being a point of time: the text, trimmed. -/
structure TimestampFault where
  text : String
  deriving DecidableEq, Repr

/-- The text of the fault. -/
def TimestampFault.message (e : TimestampFault) : String :=
  "failed to parse " ++ e.text ++ " to timestamp"

namespace Instant

/-- The greatest whole number that is not above a finite number. -/
def wholeSeconds (negative : Bool) (r : Binary64.Ratio) : Int :=
  if negative then -(r.ceil : Int) else r.floor

/-- What a finite number has beyond that whole number, rounded. -/
def beyondSeconds (negative : Bool) (r : Binary64.Ratio) : Binary64.Ratio :=
  Binary64.rounded (if negative then r.below else r.beyond)

/-- The point of time a number of seconds after the beginning of 1970. The
fraction is rounded to nanoseconds, a half up, but never up to a whole second. -/
def ofSeconds? : Binary64 → Option Instant
  | .finite negative m e =>
      let r := Binary64.Ratio.ofBinary m e
      let whole := wholeSeconds negative r
      let nanos := (Binary64.rounded ((beyondSeconds negative r).scale 1000000000)).roundUp
      if inRange whole then some ⟨whole, min nanos 999999999⟩ else none
  | _ => none

/-- A date: four digits for the year, two for the month and for the day. -/
def date? (s : List Char) : Option (Date × List Char) := do
  let (year, s) ← Text.fixedDigits? 4 s
  let s ← Text.expect? '-' s
  let (month, s) ← Text.fixedDigits? 2 s
  let s ← Text.expect? '-' s
  let (day, s) ← Text.fixedDigits? 2 s
  let d : Date := ⟨year, month, day⟩
  if d.valid then some (d, s) else none

/-- The fraction of a second, if there is one, in nanoseconds. Digits beyond the
ninth do not count. -/
def fraction? (s : List Char) : Option (Nat × List Char) :=
  match s with
  | '.' :: rest =>
      let ds := (rest.takeWhile Char.isDigit).take 9
      if ds = [] then none
      else some (Text.digitsValue ds * Nat.pow 10 (9 - ds.length), rest.dropWhile Char.isDigit)
  | _ => some (0, s)

/-- A time of day in seconds and nanoseconds. The second of number sixty is a
leap second and belongs to the second before. -/
def timeOfDay? (s : List Char) : Option (Nat × Nat × List Char) := do
  let (hour, s) ← Text.fixedDigits? 2 s
  let s ← Text.expect? ':' s
  let (minute, s) ← Text.fixedDigits? 2 s
  let s ← Text.expect? ':' s
  let (second, s) ← Text.fixedDigits? 2 s
  let (nanos, s) ← fraction? s
  if 24 ≤ hour ∨ 60 ≤ minute ∨ 60 < second then none
  if second = 60 then some (hour * 3600 + minute * 60 + 59, nanos + 1000000000, s)
  else some (hour * 3600 + minute * 60 + second, nanos, s)

/-- Hours and minutes of an offset in seconds. -/
def offsetSize? (s : List Char) : Option (Int × List Char) := do
  let (hours, s) ← Text.fixedDigits? 2 s
  let s ← Text.expect? ':' s
  let (minutes, s) ← Text.fixedDigits? 2 s
  if 24 ≤ hours ∨ 60 ≤ minutes then none
  some ((hours * 3600 + minutes * 60 : Nat), s)

/-- The minus sign of typography. -/
def minusSign : Char := Char.ofNat 0x2212

/-- An offset from universal time in seconds. -/
def offset? : List Char → Option (Int × List Char)
  | c :: rest =>
      if c = 'Z' ∨ c = 'z' then some (0, rest)
      else if c = '+' then offsetSize? rest
      else if c = '-' ∨ c = minusSign then
        (offsetSize? rest).map fun (size, rest) => (-size, rest)
      else none
  | [] => none

/-- A date and a time of day with an offset, in the form of RFC 3339. A blank or
a small letter may stand between date and time. -/
def ofDateTime? (s : List Char) : Option Instant := do
  let (date, s) ← date? s
  let (mark, s) ← match s with
    | c :: rest => some (c, rest)
    | [] => none
  if mark ≠ 'T' ∧ mark ≠ 't' ∧ mark ≠ ' ' then none
  let (second, nanos, s) ← timeOfDay? s
  let (offset, s) ← offset? s
  if s ≠ [] then none
  some ⟨date.toDays * 86400 + second - offset, nanos⟩

/-- Reads a point of time. -/
def parse (text : String) : Except TimestampFault Instant :=
  let s := Text.trim text.toList
  match ((Binary64.read? s).bind ofSeconds?).orElse fun _ => ofDateTime? s with
  | some t => .ok t
  | none => .error ⟨String.ofList s⟩

/-- The point of time some seconds before another one; nothing if it is out of
range. Within a leap second the count goes back from the end of it. -/
def before? (t : Instant) (seconds : Nat) : Option Instant :=
  let leap := 1000000000 ≤ t.nanos
  let start := if leap ∧ 0 < seconds then t.seconds + 1 else t.seconds
  let nanos := if leap ∧ 0 < seconds then t.nanos - 1000000000 else t.nanos
  if inRange (start - seconds) then some ⟨start - seconds, nanos⟩ else none

/-- The second of the day. -/
def secondOfDay (t : Instant) : Int :=
  t.seconds - t.seconds.fdiv 86400 * 86400

/-- Milliseconds from one point of time to a later one, cut off. A leap second
counts where it lies, by the time of day, between the two. -/
def millisSince (later earlier : Instant) : Int :=
  let a := later.secondOfDay
  let b := earlier.secondOfDay
  let leap : Int :=
    if b < a ∧ 1000000000 ≤ earlier.nanos then 1
    else if a < b ∧ 1000000000 ≤ later.nanos then -1
    else 0
  ((later.seconds - earlier.seconds + leap) * 1000000000 + later.nanos - earlier.nanos).tdiv 1000000

end Instant

end DocWatch.Time
