import DocWatch.Json.Basic
import DocWatch.Binary64.Reading
import DocWatch.Text.Utf8

/-!
# Reading JSON

A strict reader: no comments, no leading zeros, no characters after the value,
no half of a surrogate pair, no number beyond the range of floating point, and
at most 127 arrays and objects inside each other.
-/

namespace DocWatch.Json.Reader

/-- The white space of JSON. -/
def isSpace (c : Char) : Bool :=
  c = ' ' || c = '\n' || c = '\r' || c = '\t'

/-- The text without white space at its front. -/
def skip (s : List Char) : List Char :=
  s.dropWhile isSpace

/-- A numbered character behind its mark: one unit of sixteen bits, or a pair of
surrogates. -/
def numbered? (s : List Char) : Option (Char × List Char) := do
  let (hi, rest) ← Text.hexDigits? 4 s
  if 0xD800 ≤ hi ∧ hi ≤ 0xDBFF then
    match rest with
    | '\\' :: 'u' :: more =>
        let (lo, rest') ← Text.hexDigits? 4 more
        if 0xDC00 ≤ lo ∧ lo ≤ 0xDFFF then
          some (Char.ofNat (0x10000 + (hi - 0xD800) * 1024 + (lo - 0xDC00)), rest')
        else none
    | _ => none
  else if 0xDC00 ≤ hi ∧ hi ≤ 0xDFFF then none
  else some (Char.ofNat hi, rest)

/-- The character that a letter behind a backslash stands for. -/
def escape? (c : Char) : Option Char :=
  match c with
  | '"' => some '"'
  | '\\' => some '\\'
  | '/' => some '/'
  | 'b' => some (Char.ofNat 8)
  | 'f' => some (Char.ofNat 12)
  | 'n' => some '\n'
  | 'r' => some '\r'
  | 't' => some '\t'
  | _ => none

/-- The rest of a string behind its opening quote: its characters, in reverse
behind those read before, and the text behind the closing quote. -/
def string? : Nat → List Char → List Char → Option (String × List Char)
  | 0, _, _ => none
  | _ + 1, _, [] => none
  | _ + 1, acc, '"' :: rest => some (String.ofList acc.reverse, rest)
  | fuel + 1, acc, '\\' :: 'u' :: rest =>
      match numbered? rest with
      | some (c, rest') => string? fuel (c :: acc) rest'
      | none => none
  | fuel + 1, acc, '\\' :: c :: rest =>
      match escape? c with
      | some e => string? fuel (e :: acc) rest
      | none => none
  | fuel + 1, acc, c :: rest => if c.toNat < 32 then none else string? fuel (c :: acc) rest

/-- A power of ten as a floating-point number. -/
def power (n : Nat) : Binary64 :=
  .ofNat (Nat.pow 10 n)

/-- The number `significand · 10 ^ exponent` in floating point, by one division
or by one multiplication with a power of ten, after divisions by the largest
power for exponents below all powers; none beyond the range. -/
def scaled? : Nat → Binary64 → Int → Option Binary64
  | 0, f, _ => some f
  | fuel + 1, f, e =>
      if e.natAbs ≤ 308 then
        if 0 ≤ e then
          let r := f.mul (power e.natAbs)
          if r.isFinite then some r else none
        else some (f.div (power e.natAbs))
      else if !f.isPositive then some f
      else if 0 ≤ e then none
      else scaled? fuel (f.div (power 308)) (e + 308)

/-- Digits added to a significand for as long as it fits 64 bits: the
significand, how many digits went into it, and the digits left. -/
def accumulate : Nat → Nat → List Char → Nat × Nat × List Char
  | sig, used, [] => (sig, used, [])
  | sig, used, c :: rest =>
      let next := sig * 10 + (c.toNat - 48)
      if next < Nat.pow 2 64 then accumulate next (used + 1) rest else (sig, used, c :: rest)

/-- The exponent part of a number, if there is one: its value. -/
def exponent? : List Char → Option (Int × List Char)
  | c :: rest =>
      if c = 'e' ∨ c = 'E' then
        let (negative, more) := Binary64.takeSign rest
        let digits := more.takeWhile Char.isDigit
        if digits = [] then none
        else
          let n : Int := Text.digitsValue digits
          some (if negative then -n else n, more.dropWhile Char.isDigit)
      else some (0, c :: rest)
  | [] => some (0, [])

/-- A number behind its sign. Whole numbers that fit 64 bits stay whole; all
others are floating point, from the leading digits that fit 64 bits. -/
def number? (negative : Bool) (s : List Char) : Option (Number × List Char) :=
  let digits := s.takeWhile Char.isDigit
  let afterDigits := s.dropWhile Char.isDigit
  if digits = [] then none
  else if digits.head? = some '0' ∧ digits.length ≠ 1 then none
  else
    let (sig, _, left) := accumulate 0 0 digits
    let finish (sig : Nat) (shift : Int) (rest : List Char) : Option (Number × List Char) := do
      let (e, rest') ← exponent? rest
      let f ← scaled? 400 (.ofNat sig) (max (-100000) (min 100000 (shift + e)))
      some (.float (f.signed negative), rest')
    match afterDigits with
    | '.' :: more =>
        let fraction := more.takeWhile Char.isDigit
        let rest := more.dropWhile Char.isDigit
        if fraction = [] then none
        else
          let (sig', used, _) := accumulate sig 0 fraction
          finish sig' ((left.length : Int) - used) rest
    | 'e' :: _ | 'E' :: _ => finish sig left.length afterDigits
    | _ =>
        if left ≠ [] then finish sig left.length afterDigits
        else if !negative then some (.whole sig, afterDigits)
        else if sig = 0 ∨ Nat.pow 2 63 < sig then
          some (.float (Binary64.ofNat sig).neg, afterDigits)
        else some (.whole (-(sig : Int)), afterDigits)

mutual

/-- A value at the front of the text, inside at most `depth` more arrays and
objects. Each step takes a character, so the length of the text is fuel enough. -/
def value? : Nat → Nat → List Char → Option (Json × List Char)
  | 0, _, _ => none
  | fuel + 1, depth, s =>
      match skip s with
      | 'n' :: 'u' :: 'l' :: 'l' :: rest => some (.null, rest)
      | 't' :: 'r' :: 'u' :: 'e' :: rest => some (.bool true, rest)
      | 'f' :: 'a' :: 'l' :: 's' :: 'e' :: rest => some (.bool false, rest)
      | '"' :: rest => (string? (rest.length + 1) [] rest).map fun (t, r) => (.string t, r)
      | '-' :: rest => (number? true rest).map fun (n, r) => (.number n, r)
      | '[' :: rest =>
          match depth with
          | 0 => none
          | depth + 1 =>
              match skip rest with
              | ']' :: rest' => some (.array [], rest')
              | _ => (items? fuel depth rest).map fun (vs, r) => (.array vs, r)
      | '\x7b' :: rest =>
          match depth with
          | 0 => none
          | depth + 1 =>
              match skip rest with
              | '\x7d' :: rest' => some (.object [], rest')
              | _ => (members? fuel depth rest).map fun (ms, r) => (.object ms, r)
      | c :: rest =>
          if c.isDigit then (number? false (c :: rest)).map fun (n, r) => (.number n, r) else none
      | [] => none

/-- The items of an array up to its closing bracket. -/
def items? : Nat → Nat → List Char → Option (List Json × List Char)
  | 0, _, _ => none
  | fuel + 1, depth, s =>
      match value? fuel depth s with
      | none => none
      | some (v, rest) =>
          match skip rest with
          | ',' :: rest' => (items? fuel depth rest').map fun (vs, r) => (v :: vs, r)
          | ']' :: rest' => some ([v], rest')
          | _ => none

/-- The members of an object up to its closing brace. -/
def members? : Nat → Nat → List Char → Option (List (String × Json) × List Char)
  | 0, _, _ => none
  | fuel + 1, depth, s =>
      match skip s with
      | '"' :: afterQuote =>
          match string? (afterQuote.length + 1) [] afterQuote with
          | none => none
          | some (k, rest) =>
              match skip rest with
              | ':' :: rest' =>
                  match value? fuel depth rest' with
                  | none => none
                  | some (v, rest'') =>
                      match skip rest'' with
                      | ',' :: more =>
                          (members? fuel depth more).map fun (ms, r) => ((k, v) :: ms, r)
                      | '\x7d' :: more => some ([(k, v)], more)
                      | _ => none
              | _ => none
      | _ => none

end

end DocWatch.Json.Reader

namespace DocWatch.Json

/-- Reads a text that holds one value and white space. -/
def parse? (s : List Char) : Option Json :=
  match Reader.value? (s.length + 1) 127 s with
  | some (v, rest) => if Reader.skip rest = [] then some v else none
  | none => none

/-- Reads bytes that hold one value and white space. -/
def ofBytes? (bs : List UInt8) : Option Json :=
  (Text.decode? bs).bind parse?

end DocWatch.Json
