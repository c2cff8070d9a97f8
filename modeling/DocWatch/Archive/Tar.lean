import DocWatch.Archive.Feed
import DocWatch.Text.Blank
import DocWatch.Text.Digits
import DocWatch.Text.Utf8
import DocWatch.Total

/-!
# The members of a tar archive

A member is a header block of 512 bytes and its contents, filled up to whole
blocks. A header may be preceded by others that bring a long name or, in pax
records, a path and a size. The archive ends at a block of zeros, or where the
stream ends between two members.
-/

namespace DocWatch.Archive

/-- What reading the contents of a member up to their declared size comes to. A
stream that ends within them leaves fewer bytes than were declared. -/
inductive Payload where
  | read (bytes : Bytes)
  | broken (error : ReadError)
  deriving DecidableEq, Repr

/-- A member of an archive. -/
structure Member where
  name : String
  /-- Whether it is a regular file, and not a directory, a link or the like. -/
  regular : Bool
  /-- The declared size of the contents. -/
  size : Nat
  payload : Payload
  deriving DecidableEq, Repr

/-- The members of an archive in order, and what follows the last of them: the
end, or an error. -/
structure Listing where
  members : List Member
  ending : Option ReadError
  deriving DecidableEq, Repr

/-- What is listed behind something that is read first: nothing if that fails. -/
def Listing.after {α : Type} (read : Except ReadError α) (next : α → Listing) : Listing :=
  match read with
  | .error e => ⟨[], some e⟩
  | .ok a => next a

namespace Tar

/-- The size of a block. -/
def blockSize : Nat := 512

/-- A header block with a view of its fields. -/
structure Header where
  bytes : Bytes

/-- The bytes of a field. -/
def Header.field (h : Header) (start length : Nat) : Bytes :=
  (h.bytes.drop start).take length

/-- The part of a field before its first zero byte. -/
def textPart (field : Bytes) : Bytes :=
  field.takeWhile (· ≠ 0)

/-- The value of octal digits, with an optional plus sign, below `2 ^ 64`. -/
def octal? (s : List Char) : Option Nat :=
  let digits := match s with
    | '+' :: rest => rest
    | _ => s
  if digits ≠ [] ∧ digits.all fun c => '0' ≤ c && c ≤ '7' then
    let n := digits.foldl (fun n c => n * 8 + (c.toNat - 48)) 0
    if n < Nat.pow 2 64 then some n else none
  else none

/-- A numeric field in octal text. -/
def octalField? (field : Bytes) : Option Nat := do
  let text ← Text.decode? (textPart field)
  octal? (Text.trim text)

/-- A numeric field, in octal text or, where its first bit is set, in binary. -/
def number? (field : Bytes) : Option Nat :=
  match field with
  | first :: _ =>
      if 128 ≤ first.toNat then
        some ((field.drop (field.length - 8)).foldl (fun n b => n * 256 + b.toNat) 0)
      else octalField? field
  | [] => none

/-- The sum of all bytes of a header, with blanks in place of the sum itself. -/
def Header.sum (h : Header) : Nat :=
  total ((h.bytes.take 148 ++ h.bytes.drop 156).map UInt8.toNat) + 256

/-- The byte for the kind of member. -/
def Header.kind (h : Header) : UInt8 :=
  h.bytes.getD 156 0

/-- Whether the header is in the POSIX form. -/
def Header.isPosix (h : Header) : Bool :=
  h.field 257 8 = Text.encode ['u', 's', 't', 'a', 'r'] ++ [0, 48, 48]

/-- Whether the header is in the GNU form. -/
def Header.isGnu (h : Header) : Bool :=
  h.field 257 8 = Text.encode ['u', 's', 't', 'a', 'r', ' ', ' '] ++ [0]

/-- The name in a header. The POSIX form may split it in two. -/
def Header.name (h : Header) : Bytes :=
  let name := textPart (h.field 0 100)
  let front := textPart (h.field 345 155)
  if h.isPosix ∧ front ≠ [] then front ++ 47 :: name else name

/-- The records of a pax header: key and value of each, nothing for a damaged
one, up to the first empty line. -/
def paxRecords (bytes : Bytes) : List (Option (Bytes × Bytes)) :=
  let rec go (line : Bytes) : Bytes → List (Option (Bytes × Bytes))
    | [] => if line = [] then [] else [record line.reverse]
    | b :: rest =>
        if b = 10 then
          if line = [] then [] else record line.reverse :: go [] rest
        else go (b :: line) rest
  go [] bytes
where
  /-- One line: its own length with the line end, a blank, the key, an equals
  sign and the value. -/
  record (line : Bytes) : Option (Bytes × Bytes) := do
    let lengthText ← Text.decode? (line.takeWhile (· ≠ 32))
    let afterLength ← (line.dropWhile (· ≠ 32)).tail?
    let digits ← Text.plainDigits? lengthText
    if Text.digitsValue digits ≠ line.length + 1 then none
    let key := afterLength.takeWhile (· ≠ 61)
    let value ← (afterLength.dropWhile (· ≠ 61)).tail?
    some (key, value)

/-- The path that pax records name; damaged records are passed over. -/
def paxPath? (records : List (Option (Bytes × Bytes))) : Option Bytes :=
  (records.filterMap id).lookup (Text.encode ['p', 'a', 't', 'h'])

/-- The size that pax records name; nothing behind a damaged record counts. -/
def paxSize? (records : List (Option (Bytes × Bytes))) : Option Nat := do
  let sound := (records.takeWhile Option.isSome).filterMap id
  let value ← sound.lookup (Text.encode ['s', 'i', 'z', 'e'])
  let text ← Text.decode? value
  let n := Text.digitsValue (← Text.plainDigits? text)
  if n < Nat.pow 2 64 then some n else none

/-- What was announced for the next member by the headers before it. -/
structure Announced where
  longName : Option Bytes
  longLink : Bool
  pax : Option Bytes

/-- Nothing announced. -/
def Announced.nothing : Announced := ⟨none, false, none⟩

/-- Whether anything was announced. -/
def Announced.any (a : Announced) : Bool :=
  a.longName.isSome || a.longLink || a.pax.isSome

/-- A damaged archive. -/
def damaged (detail : String) : ReadError :=
  .other detail

/-- What a reader meets behind the last byte of a stream, where more is needed. -/
def Stream.missing (s : Stream) (detail : String) : ReadError :=
  s.ending.getD (damaged detail)

/-- The header block at a place: nothing at the end of the archive. -/
def header? (s : Stream) (start : Nat) : Except ReadError (Option Header) :=
  if s.due < start then .error (Stream.missing s "unexpected EOF during skip")
  else if s.bytes.size = start then
    match s.ending with
    | none => .ok none
    | some e => .error e
  else if s.bytes.size < start + blockSize then
    .error (Stream.missing s "failed to read entire block")
  else
    let bytes := slice s.bytes start blockSize
    if bytes.all (· = 0) then .ok none else .ok (some ⟨bytes⟩)

/-- The contents of a member that start at a place. -/
def payloadAt (s : Stream) (start size : Nat) : Payload :=
  if size = 0 ∨ start ≤ s.due ∧ start + size ≤ s.bytes.size then
    .read (slice s.bytes start size)
  else
    match s.ending with
    | some e => .broken e
    | none => .read (slice s.bytes start (s.bytes.size - start))

/-- The contents of an announcing header: as much as there is of them. -/
def announcedAt (s : Stream) (start size : Nat) : Except ReadError Bytes :=
  if size = 0 ∨ start ≤ s.due ∧ start + size ≤ s.bytes.size then
    .ok (slice s.bytes start size)
  else
    match s.ending with
    | some e => .error e
    | none => .ok (slice s.bytes start (s.bytes.size - start))

/-- One extent of a sparse file: its place and its length; nothing if unused. -/
def extent? (field : Bytes) : Except ReadError (Option (Nat × Nat)) :=
  if field.getD 0 0 = 0 ∨ field.getD 12 0 = 0 then .ok none
  else
    match number? (field.take 12), number? ((field.drop 12).take 12) with
    | some offset, some length => .ok (some (offset, length))
    | _, _ => .error (damaged "numeric field was not a number")

/-- Checks the extents of a sparse file one by one: the end of the last one, and
what is left of the contents. -/
def checkExtents (size : Nat) : List Bytes → Nat × Nat → Except ReadError (Nat × Nat)
  | [], state => .ok state
  | field :: rest, (reached, left) =>
      match extent? field with
      | .error e => .error e
      | .ok none => checkExtents size rest (reached, left)
      | .ok (some (offset, length)) =>
          if length ≠ 0 ∧ (size - left) % blockSize ≠ 0 then
            .error (damaged "previous block in sparse file was not aligned to 512-byte boundary")
          else if offset < reached then
            .error (damaged "out of order or overlapping sparse blocks")
          else if Nat.pow 2 64 ≤ offset + length then
            .error (damaged "more bytes listed in sparse file than u64 can hold")
          else if left < length then
            .error (damaged "sparse file consumed more data than the header listed")
          else checkExtents size rest (offset + length, left - length)

/-- The extents in a block, `n` of them from a place on. -/
def extentFields (bytes : Bytes) (start n : Nat) : List Bytes :=
  (List.range n).map fun i => (bytes.drop (start + 24 * i)).take 24

/-- Checks the extents in blocks that continue the header of a sparse file. -/
def checkContinued (s : Stream) (size : Nat) :
    Nat → Nat → Nat × Nat → Except ReadError (Nat × (Nat × Nat))
  | 0, start, state => .ok (start, state)
  | fuel + 1, start, state =>
      if s.due < start ∨ s.bytes.size < start + blockSize then
        .error (Stream.missing s "failed to read extension")
      else
        let bytes := slice s.bytes start blockSize
        match checkExtents size (extentFields bytes 0 21) state with
        | .error e => .error e
        | .ok state =>
            if bytes.getD 504 0 = 1 then checkContinued s size fuel (start + blockSize) state
            else .ok (start + blockSize, state)

/-- Checks the map of a sparse file: how many blocks continue its header, and
the size of the file. -/
def checkSparse (s : Stream) (h : Header) (start size : Nat) : Except ReadError (Nat × Nat) := do
  if !h.isGnu then throw (damaged "sparse entry type listed but not GNU header")
  let state ← checkExtents size (extentFields h.bytes 386 4) (0, size)
  let (behind, reached, left) ←
    if h.bytes.getD 482 0 = 1 then checkContinued s size (s.bytes.size / blockSize + 1) start state
    else pure (start, state)
  match number? (h.field 483 12) with
  | none => throw (damaged "numeric field was not a number")
  | some real =>
      if reached ≠ real then throw (damaged "mismatch in sparse file chunks and size in header")
  if left ≠ 0 then throw (damaged "mismatch in sparse file chunks and entry size in header")
  return (behind - start, reached)

/-- The members from a header on. Every header takes a block, so the number of
blocks is fuel enough. -/
def membersFrom (s : Stream) : Nat → Nat → Announced → Listing
  | 0, _, _ => ⟨[], none⟩
  | fuel + 1, start, announced =>
      let failed (e : ReadError) : Listing := ⟨[], some e⟩
      match header? s start with
      | .error e => failed e
      | .ok none =>
          if announced.any then failed (damaged "members found describing a future member")
          else ⟨[], none⟩
      | .ok (some h) =>
          match octalField? (h.field 148 8), number? (h.field 124 12) with
          | none, _ => failed (damaged "numeric field was not a number")
          | some sum, size =>
              if h.sum ≠ sum % Nat.pow 2 32 then failed (damaged "archive header checksum mismatch")
              else
                match size with
                | none => failed (damaged "numeric field was not a number")
                | some declared =>
                    let records := (announced.pax.map paxRecords).getD []
                    let size := (paxSize? records).getD declared
                    let dataStart := start + blockSize
                    let next := dataStart + (size + blockSize - 1) / blockSize * blockSize
                    if Nat.pow 2 64 ≤ size + blockSize - 1 ∨ Nat.pow 2 64 ≤ next then
                      failed (damaged "size overflow")
                    else if (h.isGnu || h.isPosix) && h.kind = 76 then
                      if announced.longName.isSome then
                        failed (damaged "two long name entries describing the same member")
                      else
                        .after (announcedAt s dataStart size) fun name =>
                          membersFrom s fuel next { announced with longName := some name }
                    else if (h.isGnu || h.isPosix) && h.kind = 75 then
                      if announced.longLink then
                        failed (damaged "two long name entries describing the same member")
                      else
                        .after (announcedAt s dataStart size) fun _ =>
                          membersFrom s fuel next { announced with longLink := true }
                    else if (h.isGnu || h.isPosix) && h.kind = 120 then
                      if announced.pax.isSome then
                        failed (damaged "two pax extensions entries describing the same member")
                      else
                        .after (announcedAt s dataStart size) fun pax =>
                          membersFrom s fuel next { announced with pax := some pax }
                    else
                      let name := match announced.longName with
                        | some long => if long.getLast? = some 0 then long.dropLast else long
                        | none => (paxPath? records).getD h.name
                      let member (size : Nat) : Member :=
                        ⟨String.ofList (Text.decodeLossy name), h.kind = 0 || h.kind = 48, size,
                          payloadAt s dataStart size⟩
                      if h.kind = 83 then
                        .after (checkSparse s h dataStart size) fun (continued, real) =>
                          let rest := membersFrom s fuel (next + continued) .nothing
                          ⟨member real :: rest.members, rest.ending⟩
                      else
                        let rest := membersFrom s fuel next .nothing
                        ⟨member size :: rest.members, rest.ending⟩

/-- The members of the archive that a stream holds. -/
def listing (s : Stream) : Listing :=
  membersFrom s (s.bytes.size / blockSize + 2) 0 .nothing

end Tar

end DocWatch.Archive
