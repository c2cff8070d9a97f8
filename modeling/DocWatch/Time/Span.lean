import DocWatch.Binary64.Reading
import DocWatch.Text.Blank
import DocWatch.Text.Quoted
import DocWatch.Total

/-!
# Spans of time

A step between samples is given in seconds, as a decimal number, or as a
sequence of counts with units, such as `1h30m`. A span holds less than `2 ^ 64`
seconds; what would be longer cannot be represented at all.
-/

namespace DocWatch.Time

/-- A span of time in seconds and nanoseconds below one second. -/
structure Span where
  seconds : Nat
  nanos : Nat
  deriving DecidableEq, Repr

/-- What keeps a text from being a span. -/
inductive SpanFault where
  | empty
  | notPositive (text : String)
  /-- A component does not start with a digit. -/
  | malformed (text : String)
  /-- A count does not fit 64 bits. -/
  | countTooLarge
  | unknownUnit (unit text : String)
  /-- The span is too long to be represented. -/
  | overflow
  deriving DecidableEq, Repr

/-- The text of a fault. -/
def SpanFault.message : SpanFault → String
  | .empty => "empty duration"
  | .notPositive text => "duration must be positive: " ++ text
  | .malformed text => "invalid duration: " ++ text
  | .countTooLarge => "number too large to fit in target type"
  | .unknownUnit unit text =>
      "invalid duration unit " ++ String.ofList (Text.quoted unit.toList) ++ " in " ++ text
  | .overflow => "overflow"

/-- A unit of time. -/
inductive Unit where
  | millisecond
  | second
  | minute
  | hour
  | day
  | week
  | year
  deriving DecidableEq, Repr

/-- The milliseconds of a unit. A year has 365 days. -/
def Unit.millis : Unit → Nat
  | .millisecond => 1
  | .second => 1000
  | .minute => 60000
  | .hour => 3600000
  | .day => 86400000
  | .week => 7 * 86400000
  | .year => 365 * 86400000

/-- The unit of an abbreviation. -/
def Unit.parse? : List Char → Option Unit
  | ['m', 's'] => some .millisecond
  | ['s'] => some .second
  | ['m'] => some .minute
  | ['h'] => some .hour
  | ['d'] => some .day
  | ['w'] => some .week
  | ['y'] => some .year
  | _ => none

namespace Span

/-- Spans have fewer seconds than this. -/
def limit : Nat := Nat.pow 2 64

/-- The span of some milliseconds. -/
def ofMillis (n : Nat) : Span :=
  ⟨n / 1000, n % 1000 * 1000000⟩

/-- The span of a positive number of seconds, rounded to nanoseconds, a half to
the even neighbour. -/
def ofSeconds (x : Binary64) : Except SpanFault Span :=
  match x with
  | .finite _ m e =>
      let r := Binary64.Ratio.ofBinary m e
      if limit * r.den ≤ r.num then .error .overflow
      else
        let nanos := (r.scale 1000000000).roundEven
        .ok ⟨nanos / 1000000000, nanos % 1000000000⟩
  | _ => .error .overflow

/-- A span in seconds, in floating point. -/
def toSeconds (d : Span) : Binary64 :=
  (Binary64.ofNat d.seconds).add ((Binary64.ofNat d.nanos).div (.ofNat 1000000000))

/-- A count with its unit. -/
structure Component where
  count : Nat
  unit : Unit
  deriving DecidableEq, Repr

/-- The milliseconds of a component, at most as many as fit 64 bits. -/
def Component.millis (c : Component) : Nat :=
  min (c.count * c.unit.millis) (Nat.pow 2 64 - 1)

/-- Why the components of a text end before the text does. -/
inductive Stop where
  | noDigit
  | countTooLarge
  | unknownUnit (unit : String)
  deriving DecidableEq, Repr

/-- The components at the front of a text, and why it is not all components. -/
def components : List Char → List Component × Option Stop
  | [] => ([], none)
  | c :: rest =>
      if c.isDigit then
        let count := Text.digitsValue (c :: rest.takeWhile Char.isDigit)
        let behind := rest.dropWhile Char.isDigit
        if Nat.pow 2 64 ≤ count then ([], some .countTooLarge)
        else
          match Unit.parse? (behind.takeWhile Char.isAlpha) with
          | none => ([], some (.unknownUnit (String.ofList (behind.takeWhile Char.isAlpha))))
          | some unit =>
              let (more, stop) := components (behind.dropWhile Char.isAlpha)
              (⟨count, unit⟩ :: more, stop)
      else ([], some .noDigit)
termination_by s => s.length
decreasing_by
  have digits : (rest.dropWhile Char.isDigit).length ≤ rest.length :=
    (List.dropWhile_sublist _).length_le
  have letters : ((rest.dropWhile Char.isDigit).dropWhile Char.isAlpha).length ≤
      (rest.dropWhile Char.isDigit).length := (List.dropWhile_sublist _).length_le
  simp only [List.length_cons]
  omega

/-- The milliseconds of components together. -/
def totalMillis (cs : List Component) : Nat :=
  total (cs.map Component.millis)

/-- Reads a span that is written in components. -/
def ofComponents (s : List Char) : Except SpanFault Span :=
  let text := String.ofList s
  let (cs, stop) := components s
  let total := totalMillis cs
  if limit ≤ total / 1000 then .error .overflow
  else
    match stop with
    | some .noDigit => .error (.malformed text)
    | some .countTooLarge => .error .countTooLarge
    | some (.unknownUnit unit) => .error (.unknownUnit unit text)
    | none => if total = 0 then .error (.notPositive text) else .ok (ofMillis total)

/-- Reads a span. -/
def parse (text : String) : Except SpanFault Span :=
  let s := Text.trim text.toList
  match Binary64.read? s with
  | some x =>
      if x.isFinite ∧ x.isPositive then ofSeconds x
      else .error (.notPositive (String.ofList s))
  | none => if s = [] then .error .empty else ofComponents s

end Span

end DocWatch.Time
