import DocWatch.Binary64.Reading
import DocWatch.Time.Instant
import DocWatch.Toml.Basic

/-!
# Strings, numbers and times of TOML

Each reader takes one value off the front of a text and hands back what stands
behind it.
-/

namespace DocWatch.Toml

/-- The white space within a line. -/
def isSpace (c : Char) : Bool :=
  c = ' ' || c = '\t'

/-- The text without white space at its front. -/
def skipSpace (s : List Char) : List Char :=
  s.dropWhile isSpace

/-- Whether a character may stand in comments and strings: no control character
of ASCII but the tab. -/
def isContent (c : Char) : Bool :=
  c = '\t' || (32 ≤ c.toNat && c.toNat ≠ 127)

/-- The text behind the end of a line. -/
def lineEnd? : List Char → Option (List Char)
  | '\n' :: rest => some rest
  | '\r' :: '\n' :: rest => some rest
  | _ => none

/-- The text without white space and ends of lines at its front. -/
def skipLines : List Char → List Char
  | '\n' :: rest => skipLines rest
  | '\r' :: '\n' :: rest => skipLines rest
  | c :: rest => if isSpace c then skipLines rest else c :: rest
  | [] => []

/-! ## Strings -/

/-- A character given by `n` digits of base sixteen. -/
def numbered? (n : Nat) (s : List Char) : Option (Char × List Char) := do
  let (code, rest) ← Text.hexDigits? n s
  if code < 0xD800 ∨ (0xDFFF < code ∧ code < 0x110000) then some (Char.ofNat code, rest) else none

/-- A character behind a backslash. -/
def escaped? : List Char → Option (Char × List Char)
  | 'b' :: rest => some (Char.ofNat 8, rest)
  | 't' :: rest => some ('\t', rest)
  | 'n' :: rest => some ('\n', rest)
  | 'f' :: rest => some (Char.ofNat 12, rest)
  | 'r' :: rest => some ('\r', rest)
  | '"' :: rest => some ('"', rest)
  | '\\' :: rest => some ('\\', rest)
  | 'u' :: rest => numbered? 4 rest
  | 'U' :: rest => numbered? 8 rest
  | _ => none

/-- The rest of a string on one line, with the characters read before in
reverse. Backslashes escape in a string between double quotes only. -/
def lineString? (quote : Char) : Nat → List Char → List Char → Option (String × List Char)
  | 0, _, _ => none
  | _ + 1, _, [] => none
  | fuel + 1, acc, c :: rest =>
      if c = quote then some (String.ofList acc.reverse, rest)
      else if c = '\\' ∧ quote = '"' then
        match escaped? rest with
        | some (e, rest) => lineString? quote fuel (e :: acc) rest
        | none => none
      else if isContent c then lineString? quote fuel (c :: acc) rest
      else none

/-- The rest of a string over several lines. Up to two quotes may stand in it,
and before its closing three quotes. A backslash at the end of a line takes
away all white space up to the next character. -/
def linesString? (quote : Char) : Nat → List Char → List Char → Option (String × List Char)
  | 0, _, _ => none
  | _ + 1, _, [] => none
  | fuel + 1, acc, c :: rest =>
      if c = quote then
        let quotes := 1 + (rest.takeWhile (· = quote)).length
        if quotes < 3 then linesString? quote fuel (c :: acc) rest
        else
          let kept := min (quotes - 3) 2
          some (String.ofList (acc.reverse ++ List.replicate kept quote), rest.drop (kept + 2))
      else if c = '\\' ∧ quote = '"' then
        match lineEnd? (skipSpace rest) with
        | some rest => linesString? quote fuel acc (skipLines rest)
        | none =>
            match escaped? rest with
            | some (e, rest) => linesString? quote fuel (e :: acc) rest
            | none => none
      else
        match lineEnd? (c :: rest) with
        | some rest => linesString? quote fuel ('\n' :: acc) rest
        | none => if isContent c then linesString? quote fuel (c :: acc) rest else none

/-- A string on one line, with its opening quote. -/
def keyString? : List Char → Option (String × List Char)
  | c :: rest => if c = '"' ∨ c = '\'' then lineString? c (rest.length + 1) [] rest else none
  | [] => none

/-- A string of any kind, with its opening quotes. The end of the line behind
three opening quotes does not belong to it. -/
def string? (s : List Char) : Option (String × List Char) :=
  match s with
  | a :: b :: c :: rest =>
      if (a = '"' ∨ a = '\'') ∧ b = a ∧ c = a then
        let body := (lineEnd? rest).getD rest
        linesString? a (body.length + 1) [] body
      else keyString? s
  | _ => keyString? s

/-! ## Numbers -/

/-- Further digits, in which single underscores may stand between two digits. -/
def digitsFrom? (isDigit : Char → Bool) : List Char → Option (List Char × List Char)
  | '_' :: c :: rest =>
      if isDigit c then (digitsFrom? isDigit rest).map fun (ds, r) => (c :: ds, r) else none
  | ['_'] => none
  | c :: rest =>
      if isDigit c then (digitsFrom? isDigit rest).map fun (ds, r) => (c :: ds, r)
      else some ([], c :: rest)
  | [] => some ([], [])

/-- At least one digit. -/
def digits? (isDigit : Char → Bool) : List Char → Option (List Char × List Char)
  | c :: rest =>
      if isDigit c then (digitsFrom? isDigit rest).map fun (ds, r) => (c :: ds, r) else none
  | [] => none

/-- A whole number, if it fits 64 bits with a sign. -/
def integer? (n : Int) : Option Toml :=
  if -(Nat.pow 2 63 : Nat) ≤ n ∧ n < Nat.pow 2 63 then some (.integer n) else none

/-- A whole number in another base, behind its mark. -/
def based? (base : Nat) (s : List Char) : Option (Toml × List Char) := do
  let isDigit (c : Char) : Bool := match Text.hexDigit? c with
    | some d => d < base
    | none => false
  let (ds, rest) ← digits? isDigit s
  let n : Nat := ds.foldl (fun n c => n * base + (Text.hexDigit? c).getD 0) 0
  let v ← integer? n
  some (v, rest)

/-- The digits before the point: a lone zero, or digits that start with another
one. -/
def wholePart? : List Char → Option (List Char × List Char)
  | '0' :: rest => some (['0'], rest)
  | s => digits? Char.isDigit s

/-- The digits behind the point, if there is one. -/
def fractionPart? : List Char → Option (List Char × List Char)
  | '.' :: rest => digits? Char.isDigit rest
  | s => some ([], s)

/-- The exponent, if there is one. -/
def exponentPart? : List Char → Option (Option Int × List Char)
  | c :: rest =>
      if c = 'e' ∨ c = 'E' then
        let (negative, body) := Binary64.takeSign rest
        (digits? Char.isDigit body).map fun (ds, r) =>
          let n : Int := Text.digitsValue ds
          (some (if negative then -n else n), r)
      else some (none, c :: rest)
  | [] => some (none, [])

/-- A decimal number behind its sign. Floating point shows in a fraction or an
exponent, and must not be too large. -/
def decimal? (negative : Bool) (s : List Char) : Option (Toml × List Char) := do
  let (whole, rest) ← wholePart? s
  let (fraction, rest) ← fractionPart? rest
  let (exponent, rest) ← exponentPart? rest
  if fraction = [] ∧ exponent = none then
    let n : Int := Text.digitsValue whole
    let v ← integer? (if negative then -n else n)
    some (v, rest)
  else
    let x := Binary64.ofDecimal negative (Text.digitsValue (whole ++ fraction))
      (exponent.getD 0 - fraction.length)
    if x = .infinite false then none else some (.float x, rest)

/-- A number. -/
def number? (s : List Char) : Option (Toml × List Char) :=
  match s with
  | '0' :: 'x' :: rest => based? 16 rest
  | '0' :: 'o' :: rest => based? 8 rest
  | '0' :: 'b' :: rest => based? 2 rest
  | _ =>
      let (negative, body) := Binary64.takeSign s
      match body with
      | 'i' :: 'n' :: 'f' :: rest =>
          some (.float (.infinite negative),
            rest)
      | 'n' :: 'a' :: 'n' :: rest => some (.float .nan, rest)
      | _ => decimal? negative body

/-! ## Dates and times -/

/-- The text behind a date. -/
def afterDate? (s : List Char) : Option (List Char) := do
  let (year, s) ← Text.fixedDigits? 4 s
  let s ← Text.expect? '-' s
  let (month, s) ← Text.fixedDigits? 2 s
  let s ← Text.expect? '-' s
  let (day, s) ← Text.fixedDigits? 2 s
  if Time.Date.valid ⟨year, month, day⟩ then some s else none

/-- The text behind hours and minutes. -/
def afterMinutes? (s : List Char) : Option (List Char) := do
  let (hour, s) ← Text.fixedDigits? 2 s
  let s ← Text.expect? ':' s
  let (minute, s) ← Text.fixedDigits? 2 s
  if hour < 24 ∧ minute < 60 then some s else none

/-- The text behind a time of day. -/
def afterTime? (s : List Char) : Option (List Char) := do
  let s ← afterMinutes? s
  let s ← Text.expect? ':' s
  let (second, s) ← Text.fixedDigits? 2 s
  if 60 < second then none
  match s with
  | '.' :: rest =>
      if (rest.head?.map Char.isDigit).getD false then some (rest.dropWhile Char.isDigit)
      else some s
  | _ => some s

/-- The text behind the offset of a time zone, if there is one. -/
def afterOffset : List Char → List Char
  | 'Z' :: rest | 'z' :: rest => rest
  | c :: rest =>
      if c = '+' ∨ c = '-' then (afterMinutes? rest).getD (c :: rest) else c :: rest
  | [] => []

/-- The text behind a time that may follow a date. -/
def afterTimeOfDate? : List Char → Option (List Char)
  | c :: rest =>
      if c = 'T' ∨ c = 't' ∨ c = ' ' then (afterTime? rest).map afterOffset else none
  | [] => none

/-- A date, a time of day or both. -/
def dateTime? (s : List Char) : Option (Toml × List Char) :=
  let behind := match afterDate? s with
    | some rest => some ((afterTimeOfDate? rest).getD rest)
    | none => afterTime? s
  behind.map fun rest => (.dateTime (String.ofList (s.take (s.length - rest.length))), rest)

end DocWatch.Toml
