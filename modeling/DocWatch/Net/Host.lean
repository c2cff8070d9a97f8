import DocWatch.Net.Percent
import DocWatch.Text.Blank
import DocWatch.Text.Occurrence

/-!
# Hosts

The host of an address is an address of a machine, written in numbers, or a
name. Schemes of the web take their names from the domain name system and know
addresses in four numbers; to any other scheme a name is a text that only must
not hold a character with a meaning of its own.
-/

namespace DocWatch.Net

/-- What keeps a text from being an address. -/
inductive UrlFault where
  | relativeWithoutBase
  | emptyHost
  | invalidDomainName
  | invalidDomainCharacter
  | invalidPort
  | invalidIpv4
  | invalidIpv6
  deriving DecidableEq, Repr

/-- The text of a fault. -/
def UrlFault.message : UrlFault → String
  | .relativeWithoutBase => "relative URL without a base"
  | .emptyHost => "empty host"
  | .invalidDomainName => "invalid international domain name"
  | .invalidDomainCharacter => "invalid domain character"
  | .invalidPort => "invalid port number"
  | .invalidIpv4 => "invalid IPv4 address"
  | .invalidIpv6 => "invalid IPv6 address"

namespace Host

/-- Characters that have a meaning of their own in an address. -/
def isForbidden (c : Char) : Bool :=
  c.toNat = 0 || "\t\n\r #/:<>?@[\\]^|".toList.contains c

/-- Characters that no domain name holds. -/
def isForbiddenInDomain (c : Char) : Bool :=
  isForbidden c || c.toNat < 32 || c = '%' || c.toNat = 127

/-- Characters that are escaped in the name of a host. -/
def isEscaped (c : Char) : Bool :=
  c.toNat < 32 || 126 < c.toNat

/-! ## Addresses in numbers -/

/-- A part of an address in four numbers: in base ten, or with a mark for base
eight or sixteen in front. -/
def ipv4Number? (s : List Char) : Option Nat :=
  let radix (base : Nat) (digits : List Char) : Option Nat := do
    let ds ← digits.mapM Text.hexDigit?
    if ds.all (· < base) then some (ds.foldl (fun n d => n * base + d) 0) else none
  match s with
  | [] => none
  | '0' :: 'x' :: digits | '0' :: 'X' :: digits => radix 16 digits
  | '0' :: c :: digits => radix 8 (c :: digits)
  | digits => radix 10 digits

/-- The parts of a name between dots, less an empty one at the end. -/
def dotted (s : List Char) : List (List Char) :=
  let parts := Text.splitBy (· == '.') s
  if parts.getLast? = some [] then parts.dropLast else parts

/-- Whether a name ends in a number, so that it must be an address. -/
def endsInNumber (s : List Char) : Bool :=
  match (dotted s).getLast? with
  | none => false
  | some last => (!last.isEmpty && last.all Char.isDigit) || (ipv4Number? last).isSome

/-- Whether a text is an address in at most four numbers; the last one stands
for all bytes that are left. -/
def isIpv4 (s : List Char) : Bool :=
  match (dotted s).mapM ipv4Number? with
  | none => false
  | some numbers =>
      match numbers.reverse with
      | [] => false
      | last :: front =>
          front.length < 4 && front.all (· < 256) && last < Nat.pow 256 (4 - front.length)

/-- Whether a text is the number of a byte without a zero in front. -/
def isByte (s : List Char) : Bool :=
  !s.isEmpty && s.all Char.isDigit && (s.length = 1 || s.head? ≠ some '0') &&
    Text.digitsValue s < 256

/-- How many of the eight pieces of a long address some pieces of text make up;
none if one of them is no piece. Four bytes with dots may stand last and make
up two. -/
def pieces? : List (List Char) → Option Nat
  | [] => some 0
  | [piece] =>
      let bytes := Text.splitBy (· == '.') piece
      if bytes.length = 4 ∧ bytes.all isByte then some 2
      else if isPiece piece then some 1
      else none
  | piece :: rest => if isPiece piece then (pieces? rest).map (· + 1) else none
where
  /-- Whether a text is one to four digits of base sixteen. -/
  isPiece (s : List Char) : Bool :=
    !s.isEmpty && s.length ≤ 4 && s.all fun c => (Text.hexDigit? c).isSome

/-- The pieces of text between colons; none of an empty text. -/
def colonPieces (s : List Char) : List (List Char) :=
  if s.isEmpty then [] else Text.splitBy (· == ':') s

/-- Whether a text is a long address: eight pieces, or fewer around two colons. -/
def isIpv6 (s : List Char) : Bool :=
  match Text.firstIndex? [':', ':'] s with
  | none => pieces? (colonPieces s) = some 8
  | some i =>
      let front := colonPieces (s.take i)
      let back := colonPieces (s.drop (i + 2))
      match pieces? front, pieces? back with
      | some n, some m => n = front.length && n + m ≤ 7
      | _, _ => false

/-! ## Reading -/

/-- A long address in its brackets. -/
def bracketed (s : List Char) : Except UrlFault (List Char) :=
  if s.getLast? = some ']' ∧ isIpv6 (s.drop 1).dropLast then .ok s else .error .invalidIpv6

/-- The host of a scheme that is none of the web. -/
def parseOpaque (s : List Char) : Except UrlFault (List Char) :=
  if s.head? = some '[' then bracketed s
  else if s.any isForbidden then .error .invalidDomainCharacter
  else .ok (percentEncode isEscaped s)

/-- The host of a scheme of the web. -/
def parseDomain (s : List Char) : Except UrlFault (List Char) :=
  if s.head? = some '[' then bracketed s
  else
    match percentDecoded? s with
    | none => .error .invalidDomainName
    | some name =>
        if name.any isForbiddenInDomain then .error .invalidDomainName
        else if name.isEmpty then .error .emptyHost
        else if endsInNumber name && !isIpv4 name then .error .invalidIpv4
        else .ok (name.map Char.toLower)

end Host

end DocWatch.Net
