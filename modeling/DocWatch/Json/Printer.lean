import DocWatch.Json.Basic
import DocWatch.Binary64.Written

/-!
# Writing JSON

A value is written in one line without blanks, or over several lines with an
indent of two. Only the quote, the backslash and the control characters of
ASCII are escaped in a string.
-/

namespace DocWatch.Json

/-- One hexadecimal digit. -/
def hexDigit (n : Nat) : Char :=
  if n < 10 then Char.ofNat (48 + n) else Char.ofNat (87 + n)

/-- One character of a string, as it is written. -/
def escapedChar (c : Char) : List Char :=
  if c = '"' then ['\\', '"']
  else if c = '\\' then ['\\', '\\']
  else if c = '\n' then ['\\', 'n']
  else if c = '\r' then ['\\', 'r']
  else if c = '\t' then ['\\', 't']
  else if c.toNat = 8 then ['\\', 'b']
  else if c.toNat = 12 then ['\\', 'f']
  else if c.toNat < 32 then ['\\', 'u', '0', '0', hexDigit (c.toNat / 16), hexDigit (c.toNat % 16)]
  else [c]

/-- A string, as it is written. -/
def quotedString (s : String) : String :=
  String.ofList ('"' :: s.toList.flatMap escapedChar ++ ['"'])

/-- A number, as it is written. -/
def Number.render : Number → String
  | .whole n => toString n
  | .float x => Binary64.marked x

mutual

/-- A value in one line. -/
def compact : Json → String
  | .null => "null"
  | .bool true => "true"
  | .bool false => "false"
  | .number n => n.render
  | .string s => quotedString s
  | .array items => "[" ++ compactItems true items ++ "]"
  | .object members => "\x7b" ++ compactMembers true members ++ "\x7d"

/-- The items of an array in one line, with commas between them. -/
def compactItems (first : Bool) : List Json → String
  | [] => ""
  | v :: rest => (if first then "" else ",") ++ compact v ++ compactItems false rest

/-- The members of an object in one line, with commas between them. -/
def compactMembers (first : Bool) : List (String × Json) → String
  | [] => ""
  | (k, v) :: rest =>
      (if first then "" else ",") ++ quotedString k ++ ":" ++ compact v ++
        compactMembers false rest

end

/-- A new line with an indent. -/
def indent (depth : Nat) : String :=
  String.ofList ('\n' :: List.replicate (2 * depth) ' ')

mutual

/-- A value over several lines, inside `depth` others. -/
def prettyAt (depth : Nat) : Json → String
  | .array [] => "[]"
  | .object [] => "\x7b\x7d"
  | .array (v :: rest) =>
      "[" ++ indent (depth + 1) ++ prettyAt (depth + 1) v ++ prettyItems (depth + 1) rest ++
        indent depth ++ "]"
  | .object ((k, v) :: rest) =>
      "\x7b" ++ indent (depth + 1) ++ quotedString k ++ ": " ++ prettyAt (depth + 1) v ++
        prettyMembers (depth + 1) rest ++ indent depth ++ "\x7d"
  | v => compact v

/-- The later items of an array, each on a line of its own. -/
def prettyItems (depth : Nat) : List Json → String
  | [] => ""
  | v :: rest => "," ++ indent depth ++ prettyAt depth v ++ prettyItems depth rest

/-- The later members of an object, each on a line of its own. -/
def prettyMembers (depth : Nat) : List (String × Json) → String
  | [] => ""
  | (k, v) :: rest =>
      "," ++ indent depth ++ quotedString k ++ ": " ++ prettyAt depth v ++ prettyMembers depth rest

end

/-- A value over several lines. -/
def pretty (v : Json) : String :=
  prettyAt 0 v

end DocWatch.Json
