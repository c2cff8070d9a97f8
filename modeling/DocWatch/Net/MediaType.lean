import DocWatch.Text.Digits
import DocWatch.Text.Occurrence

/-!
# Media types

The type of a body is named by two words with a slash between them and
parameters behind semicolons. A plus sign in the second word sets off the
format that a more special type is written in. Whether letters are capitals
makes no difference.
-/

namespace DocWatch.Net

/-- Whether a character may be in a word of a media type. -/
def isTokenChar (c : Char) : Bool :=
  c.isAlphanum || "!#$%&'*+-.^_`|~".toList.contains c

/-- The words of a media type, in small letters: the general type, the special
one up to its last plus sign, and the format behind that. -/
structure MediaType where
  general : List Char
  special : List Char
  format : Option (List Char)
  deriving DecidableEq, Repr

namespace MediaType

/-- The value of a parameter behind its opening quote: the text behind it. A
quote at once does not close it. -/
def afterQuoted? : List Char → Option (List Char)
  | [] => none
  | c :: rest =>
      let body := rest.dropWhile fun d => d ≠ '"' && 31 < d.toNat && d.toNat ≠ 127
      if 31 < c.toNat ∧ c.toNat ≠ 127 then Text.expect? '"' body else none

/-- What must follow a quoted value: blanks, and a semicolon or the end. -/
def afterValue? (s : List Char) : Option (List Char) :=
  match s.dropWhile (· == ' ') with
  | [] => some []
  | ';' :: rest => some rest
  | _ => none

/-- The text behind the value of a parameter, and behind the semicolon that ends
it. A value without quotes is empty only at the end. -/
def value? (s : List Char) : Option (List Char) :=
  match s with
  | '"' :: rest => (afterQuoted? rest).bind afterValue?
  | _ =>
      match s.takeWhile isTokenChar, s.dropWhile isTokenChar with
      | _, [] => some []
      | _ :: _, ';' :: rest => some rest
      | _, _ => none

/-- The text behind a parameter. -/
def parameter? (s : List Char) : Option (List Char) :=
  match s.takeWhile isTokenChar, s.dropWhile isTokenChar with
  | _ :: _, '=' :: rest => value? rest
  | _, _ => none

/-- Whether a text is a list of parameters. Each takes at least one character,
so the length of the text is fuel enough. -/
def areParameters : Nat → List Char → Bool
  | 0, s => s.isEmpty
  | fuel + 1, s =>
      match s.dropWhile (· == ' ') with
      | [] => true
      | t =>
          match parameter? t with
          | some rest => areParameters fuel rest
          | none => false

/-- A word cut at its last plus sign, unless that is the first character. -/
def splitFormat (word : List Char) : List Char × Option (List Char) :=
  let format := (word.reverse.takeWhile (· ≠ '+')).reverse
  let front := word.take (word.length - format.length - 1)
  if front.isEmpty then (word, none) else (front, some format)

/-- Reads a media type. -/
def parse? (s : List Char) : Option MediaType := do
  let general := s.takeWhile isTokenChar
  let rest ← Text.expect? '/' (s.dropWhile isTokenChar)
  let word := rest.takeWhile isTokenChar
  if general.isEmpty then none
  let parameters ← match rest.dropWhile isTokenChar with
    | [] => some []
    | c :: more => if c = ';' ∧ !word.isEmpty then some more else none
  if !areParameters (parameters.length + 1) parameters then none
  let (special, format) := splitFormat (word.map Char.toLower)
  some ⟨general.map Char.toLower, special, format⟩

/-- Whether bodies of a type are JSON. -/
def isJson (m : MediaType) : Bool :=
  m.general = "application".toList && (m.special = "json".toList || m.format = some "json".toList)

end MediaType

/-- Whether a text names a type whose bodies are JSON. -/
def namesJson (contentType : String) : Bool :=
  (MediaType.parse? contentType.toList).any MediaType.isJson

end DocWatch.Net
