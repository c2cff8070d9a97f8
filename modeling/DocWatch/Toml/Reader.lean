import DocWatch.Toml.Scalar

/-!
# Reading TOML documents

A document is a list of lines: pairs of key and value, and headers that say
which table the pairs below belong to. Nesting is bounded: fewer than eighty
arrays and inline tables inside each other, and fewer than eighty parts of a
key.
-/

namespace DocWatch.Toml

/-- How deep arrays and inline tables may be nested. -/
def maxDepth : Nat := 79

/-- How many parts a key may have. -/
def maxParts : Nat := 79

/-! ## Keys -/

/-- Whether a character may stand in a key without quotes. -/
def isBare (c : Char) : Bool :=
  c.isAlphanum || c = '_' || c = '-'

/-- One part of a key. -/
def part? (s : List Char) : Option (String × List Char) :=
  match s with
  | c :: _ =>
      if c = '"' ∨ c = '\'' then keyString? s
      else if isBare c then some (String.ofList (s.takeWhile isBare), s.dropWhile isBare)
      else none
  | [] => none

/-- The parts of a key, with points between them and white space around them. -/
def parts? : Nat → List Char → Option (List String × List Char)
  | 0, _ => none
  | fuel + 1, s => do
      let (p, rest) ← part? (skipSpace s)
      match skipSpace rest with
      | '.' :: rest => (parts? fuel rest).map fun (ps, r) => (p :: ps, r)
      | rest => some ([p], rest)

/-- A key. -/
def key? (s : List Char) : Option (List String × List Char) := do
  let (ps, rest) ← parts? (s.length + 1) s
  if maxParts < ps.length then none
  some (ps, rest)

/-! ## Values -/

/-- The text behind a comment, if there is one. -/
def skipComment : List Char → List Char
  | '#' :: rest => rest.dropWhile isContent
  | s => s

/-- The text without white space, ends of lines and comments at its front. -/
def skipAll : Nat → List Char → List Char
  | 0, s => s
  | fuel + 1, s =>
      match skipLines s with
      | '#' :: rest => skipAll fuel (rest.dropWhile isContent)
      | s => s

mutual

/-- A value at the front of a text, inside at most `depth` more arrays and
inline tables. Each step takes a character, so the length of the text is fuel
enough. -/
def value? : Nat → Nat → List Char → Option (Toml × List Char)
  | 0, _, _ => none
  | fuel + 1, depth, s =>
      match s with
      | 't' :: 'r' :: 'u' :: 'e' :: rest => some (.boolean true, rest)
      | 'f' :: 'a' :: 'l' :: 's' :: 'e' :: rest => some (.boolean false, rest)
      | '[' :: rest =>
          match depth with
          | 0 => none
          | depth + 1 => (items? fuel depth rest).map fun (vs, r) => (.array vs, r)
      | '\x7b' :: rest =>
          match depth with
          | 0 => none
          | depth + 1 =>
              match skipSpace rest with
              | '\x7d' :: r => some (.table .inline [], r)
              | _ => do
                  let (pairs, r) ← pairs? fuel depth rest
                  let v ← inline? pairs
                  some (v, r)
      | c :: _ =>
          if c = '"' ∨ c = '\'' then (string? s).map fun (t, r) => (.string t, r)
          else (dateTime? s).orElse fun _ => number? s
      | [] => none

/-- The items of an array up to its closing bracket. -/
def items? : Nat → Nat → List Char → Option (List Toml × List Char)
  | 0, _, _ => none
  | fuel + 1, depth, s =>
      match skipAll s.length s with
      | ']' :: rest => some ([], rest)
      | s =>
          match value? fuel depth s with
          | none => none
          | some (v, rest) =>
              match skipAll rest.length rest with
              | ',' :: rest => (items? fuel depth rest).map fun (vs, r) => (v :: vs, r)
              | ']' :: rest => some ([v], rest)
              | _ => none

/-- The pairs of an inline table up to its closing brace. -/
def pairs? : Nat → Nat → List Char → Option (List (List String × Toml) × List Char)
  | 0, _, _ => none
  | fuel + 1, depth, s =>
      match key? s with
      | none => none
      | some (path, rest) =>
          match rest with
          | '=' :: rest =>
              match value? fuel depth (skipSpace rest) with
              | none => none
              | some (v, rest) =>
                  match skipSpace rest with
                  | ',' :: rest => (pairs? fuel depth rest).map fun (ps, r) => ((path, v) :: ps, r)
                  | '\x7d' :: rest => some ([(path, v)], rest)
                  | _ => none
          | _ => none

end

/-! ## Documents -/

/-- What has been read of a document: the outermost table, and the path of the
table that pairs are put into. -/
structure Draft where
  rows : Rows
  path : List String

/-- Nothing read yet. -/
def Draft.start : Draft := ⟨[], []⟩

/-- Puts a pair into the table that the last header opened. -/
def Draft.put? (d : Draft) (key : List String) (v : Toml) : Option Draft := do
  let last ← key.getLast?
  let rows ← changeAt? false (insertAt? key.dropLast last v) d.path .header d.rows
  some { d with rows }

/-- Opens the table of a header. -/
def Draft.open? (d : Draft) (several : Bool) (key : List String) : Option Draft := do
  let last ← key.getLast?
  let rows ← (if several then openTables? else openTable?) key.dropLast last d.rows
  some ⟨rows, key⟩

/-- The text behind the rest of a line, which holds at most a comment. -/
def restOfLine? (s : List Char) : Option (List Char) :=
  match skipComment (skipSpace s) with
  | [] => some []
  | s => lineEnd? s

/-- Reads one line that is not blank. -/
def line? (d : Draft) (s : List Char) : Option (Draft × List Char) :=
  match s with
  | '[' :: '[' :: rest => do
      let (key, rest) ← key? rest
      let rest ← (Text.expect? ']' rest).bind (Text.expect? ']')
      let d ← d.open? true key
      let rest ← restOfLine? rest
      some (d, rest)
  | '[' :: rest => do
      let (key, rest) ← key? rest
      let rest ← Text.expect? ']' rest
      let d ← d.open? false key
      let rest ← restOfLine? rest
      some (d, rest)
  | _ => do
      let (key, rest) ← key? s
      let rest ← Text.expect? '=' rest
      let (v, rest) ← value? (rest.length + 1) maxDepth (skipSpace rest)
      let d ← d.put? key v
      let rest ← restOfLine? rest
      some (d, rest)

/-- Reads the lines of a document. -/
def lines? : Nat → Draft → List Char → Option Draft
  | 0, _, _ => none
  | fuel + 1, d, s =>
      match skipAll s.length s with
      | [] => some d
      | s => (line? d s).bind fun (d, rest) => lines? fuel d rest

/-- Reads a document, whose text may begin with a byte order mark. -/
def parse? (s : List Char) : Option Rows :=
  let text := if s.head? = some (Char.ofNat 0xFEFF) then s.tail else s
  (lines? (text.length + 1) .start text).map Draft.rows

end DocWatch.Toml
