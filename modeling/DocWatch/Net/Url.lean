import DocWatch.Net.Host

/-!
# Addresses of resources

An address has a scheme, perhaps a host, and a path; what stands behind the
path does not name another resource here and is passed over. Paths are brought
into one form: steps upwards and steps on the spot are taken, and characters
that must not stand in an address are escaped. What is escaped already stays
so.
-/

namespace DocWatch.Net

/-- An address. -/
structure Url where
  /-- The scheme in small letters. -/
  scheme : List Char
  host : Option (List Char)
  path : List Char
  deriving DecidableEq, Repr

namespace Url

/-! ## Paths -/

/-- Characters that are escaped in a path. -/
def isEscapedInPath (c : Char) : Bool :=
  c.toNat < 32 || 126 < c.toNat || " \"#<>?`\x7b\x7d".toList.contains c

/-- A segment with its escaped dots written out. -/
def plainDots : List Char → List Char
  | '%' :: '2' :: 'e' :: rest | '%' :: '2' :: 'E' :: rest => '.' :: plainDots rest
  | c :: rest => c :: plainDots rest
  | [] => []

/-- Whether a segment is a step on the spot. -/
def isHere (segment : List Char) : Bool :=
  plainDots segment = ['.']

/-- Whether a segment is a step upwards. -/
def isUp (segment : List Char) : Bool :=
  plainDots segment = ['.', '.']

/-- Whether a segment names a drive, above which there is nothing. -/
def isDrive (segment : List Char) : Bool :=
  match segment with
  | [letter, mark] => letter.isAlpha && (mark = ':' || mark = '|')
  | _ => false

/-- The segments after a step upwards, the innermost first. -/
def stepUp : List (List Char) → List (List Char)
  | [] => []
  | segment :: outer => if isDrive segment then segment :: outer else outer

/-- Takes the steps in a path: the segments passed so far, the innermost first,
and the segments to come. A path that ends in a step ends in a slash. -/
def resolve (passed : List (List Char)) : List (List Char) → List (List Char)
  | [] => passed.reverse
  | [segment] =>
      if isUp segment then ([] :: stepUp passed).reverse
      else if isHere segment then ([] :: passed).reverse
      else (percentEncode isEscapedInPath segment :: passed).reverse
  | segment :: rest =>
      if isUp segment then resolve (stepUp passed) rest
      else if isHere segment then resolve passed rest
      else resolve (percentEncode isEscapedInPath segment :: passed) rest

/-- Segments as a path. -/
def joined (segments : List (List Char)) : List Char :=
  segments.flatMap fun segment => '/' :: segment

/-- Reads the path behind a host. The schemes of the web know two slashes and
always have a path. -/
def readPath (web : Bool) (s : List Char) : List Char :=
  let text := s.takeWhile fun c => c ≠ '?' && c ≠ '#'
  let isSlash (c : Char) : Bool := c = '/' || (web && c = '\\')
  let segments := Text.splitBy isSlash
  match text with
  | [] => if web then ['/'] else []
  | c :: rest => joined (resolve [] (segments (if isSlash c then rest else c :: rest)))

/-! ## Hosts and ports -/

/-- Whether a character ends the part of an address that names the host. -/
def endsAuthority (web : Bool) (c : Char) : Bool :=
  c = '/' || c = '?' || c = '#' || (web && c = '\\')

/-- What stands before and behind the last at sign of a text, if it has one. -/
def splitLastAt (s : List Char) : Option (List Char × List Char) :=
  let back := (s.reverse.takeWhile (· ≠ '@')).reverse
  if back.length = s.length then none else some (s.take (s.length - back.length - 1), back)

/-- The host and the rest behind it; a colon in brackets does not end it. -/
def splitHost (web : Bool) (inBrackets : Bool) : List Char → List Char × List Char
  | [] => ([], [])
  | c :: rest =>
      if endsAuthority web c || (c = ':' && !inBrackets) then ([], c :: rest)
      else
        let inside := if c = '[' then true else if c = ']' then false else inBrackets
        let (host, behind) := splitHost web inside rest
        (c :: host, behind)

/-- The text behind a port: at most the largest number of sixteen bits, and then
nothing or what ends the part with the host. -/
def afterPort? (s : List Char) : Option (List Char) :=
  let digits := s.takeWhile Char.isDigit
  let rest := s.dropWhile Char.isDigit
  if 65535 < Text.digitsValue digits then none
  else
    match rest with
    | [] => some []
    | c :: _ => if endsAuthority true c then some rest else none

/-- Reads what stands behind two slashes: who asks, the host, a port and a path.
Without a host there must be neither a port nor one who asks. -/
def afterSlashes (web : Bool) (s : List Char) : Except UrlFault (Option (List Char) × List Char) :=
  let authority := s.takeWhile fun c => !endsAuthority web c
  let (asker, rest) := match splitLastAt authority with
    | none => (none, s)
    | some (asker, back) => (some asker, back ++ s.drop authority.length)
  if asker = some [] ∧ rest.head?.any (endsAuthority web) then .error .emptyHost
  else
    let (name, behind) := splitHost web false rest
    if name = [] ∧ web then .error .emptyHost
    else
      match if web then Host.parseDomain name else Host.parseOpaque name with
      | .error fault => .error fault
      | .ok host =>
          match behind with
          | ':' :: port =>
              if host = [] then .error .emptyHost
              else
                match afterPort? port with
                | none => .error .invalidPort
                | some path => .ok (some host, readPath web path)
          | _ =>
              if host = [] then
                if asker.any fun a => a ≠ [] && a ≠ [':'] then .error .emptyHost
                else .ok (none, readPath web behind)
              else .ok (some host, readPath web behind)

/-! ## Schemes -/

/-- The schemes of the web, whose hosts are domains. -/
def webSchemes : List (List Char) :=
  ["http", "https", "ws", "wss", "ftp"].map String.toList

/-- Whether a character may be in a scheme behind its first letter. -/
def isSchemeChar (c : Char) : Bool :=
  c.isAlphanum || c = '+' || c = '-' || c = '.'

/-- The scheme of a text, in small letters, and what stands behind its colon. -/
def scheme? (s : List Char) : Option (List Char × List Char) :=
  match s.takeWhile isSchemeChar, s.dropWhile isSchemeChar with
  | c :: name, ':' :: rest => if c.isAlpha then some ((c :: name).map Char.toLower, rest) else none
  | _, _ => none

/-- Reads what stands behind the scheme of a file: a host that may be missing,
and a path. -/
def afterFile (s : List Char) : Except UrlFault (Option (List Char) × List Char) :=
  let isSlash (c : Char) : Bool := c = '/' || c = '\\'
  match s with
  | a :: b :: rest =>
      if isSlash a && isSlash b then
        let name := rest.takeWhile fun c => !endsAuthority true c
        let behind := rest.drop name.length
        if name = [] || isDrive name then .ok (none, readPath true rest)
        else (Host.parseDomain name).map fun host => (some host, readPath true behind)
      else .ok (none, readPath true s)
  | _ => .ok (none, readPath true s)

/-- The text as it is read: without control characters and blanks around it, and
without tabs and line breaks anywhere. -/
def cleaned (s : List Char) : List Char :=
  (Text.trimBy (fun c => c.toNat ≤ 32) s).filter fun c => c ≠ '\t' && c ≠ '\n' && c ≠ '\r'

/-- Reads an address. -/
def parse (text : String) : Except UrlFault Url :=
  match scheme? (cleaned text.toList) with
  | none => .error .relativeWithoutBase
  | some (scheme, rest) =>
      let made (parts : Except UrlFault (Option (List Char) × List Char)) : Except UrlFault Url :=
        parts.map fun (host, path) => ⟨scheme, host, path⟩
      if scheme = "file".toList then made (afterFile rest)
      else if webSchemes.contains scheme then
        made (afterSlashes true (rest.dropWhile fun c => c = '/' || c = '\\'))
      else
        match rest with
        | '/' :: '/' :: more => made (afterSlashes false more)
        | _ => .ok ⟨scheme, none, rest.takeWhile fun c => c ≠ '?' && c ≠ '#'⟩

end Url

end DocWatch.Net
