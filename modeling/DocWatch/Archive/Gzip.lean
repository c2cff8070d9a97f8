import DocWatch.Archive.Inflate

/-!
# The gzip wrapping (RFC 1952)

Around the compressed data stand a header, with optional fields, and a trailer
with a check sum and a length. Only the first member of a file is read, and the
trailer is checked only by a reader that goes on to the end of the data.
-/

namespace DocWatch.Archive.Gzip

/-- The remainder of the check sum for one byte. -/
def crcByte (crc : UInt32) (b : UInt8) : UInt32 :=
  let rec shift : Nat → UInt32 → UInt32
    | 0, c => c
    | n + 1, c => shift n (if c &&& 1 == 1 then (c >>> 1) ^^^ 0xEDB88320 else c >>> 1)
  shift 8 (crc ^^^ b.toUInt32)

/-- The check sum (CRC-32) of bytes. -/
def crc32 (bytes : ByteArray) : UInt32 :=
  (bytes.foldl crcByte 0xFFFFFFFF) ^^^ 0xFFFFFFFF

/-- Two bytes as a number, the lower first. -/
def word16 (data : ByteArray) (i : Nat) : Nat :=
  (byteAt data i).toNat + 256 * (byteAt data (i + 1)).toNat

/-- Four bytes as a number, the lowest first. -/
def word32 (data : ByteArray) (i : Nat) : Nat :=
  word16 data i + 65536 * word16 data (i + 2)

/-- Why the header of a member cannot be read. -/
inductive HeaderFault where
  /-- The data ends within it. -/
  | short
  /-- It is not a header. -/
  | invalid

/-- The longest name or comment. -/
def maxText : Nat := 65535

/-- The position behind a text that ends with a zero byte. -/
def skipText (data : ByteArray) : Nat → Nat → Except HeaderFault Nat
  | 0, _ => .error .invalid
  | left + 1, i =>
      if h : i < data.size then
        if data[i] = 0 then .ok (i + 1) else skipText data left (i + 1)
      else .error .short

/-- The position behind a field that begins with its own length. -/
def skipExtra (data : ByteArray) (i : Nat) : Except HeaderFault Nat :=
  if data.size < i + 2 then .error .short
  else if data.size < i + 2 + word16 data i then .error .short
  else .ok (i + 2 + word16 data i)

/-- The position behind the check sum of all bytes of the header before it. -/
def skipCheck (data : ByteArray) (i : Nat) : Except HeaderFault Nat :=
  if data.size < i + 2 then .error .short
  else if (crc32 (data.extract 0 i)).toNat % 65536 ≠ word16 data i then .error .invalid
  else .ok (i + 2)

/-- A field that need not be there. -/
def optional (named : Bool) (field : Nat → Except HeaderFault Nat) (i : Nat) :
    Except HeaderFault Nat :=
  if named then field i else .ok i

/-- The position behind the fields that flags name. -/
def skipFields (data : ByteArray) (flags : UInt8) : Except HeaderFault Nat := do
  let i ← optional (flags &&& 4 ≠ 0) (skipExtra data) 10
  let i ← optional (flags &&& 8 ≠ 0) (skipText data (maxText + 1)) i
  let i ← optional (flags &&& 16 ≠ 0) (skipText data (maxText + 1)) i
  optional (flags &&& 2 ≠ 0) (skipCheck data) i

/-- The position behind a header: ten bytes, and the fields that its flags name. -/
def header (data : ByteArray) : Except HeaderFault Nat :=
  if data.size < 10 then .error .short
  else if word16 data 0 ≠ 0x8B1F ∨ byteAt data 2 ≠ 8 then .error .invalid
  else if byteAt data 3 &&& 0xE0 ≠ 0 then .error .invalid
  else skipFields data (byteAt data 3)

/-- Where pieces end when they are read in turns of at most 32 KiB. -/
def pieceEnds : Nat → List Bytes → List Nat
  | _, [] => []
  | start, piece :: rest =>
      let turns := piece.length / 32768
      (List.range turns).map (fun i => start + 32768 * (i + 1)) ++
        (start + piece.length) :: pieceEnds (start + piece.length) rest

/-- The stream of a body that ends too early, behind `used` bytes of compressed
data. The next piece is asked for as soon as the one at hand is used up, so a
failure there comes before the bytes that were decoded ahead. -/
def brokenOff (feed : Feed) (used : Nat) (d : Inflate.Decoded) : Stream :=
  ⟨d.out, some (feed.failure?.getD (.other "unexpected end of file")),
    if feed.failure?.isSome && used = feed.bytes.size then d.lastRun else d.out.size⟩

/-- The stream of a body whose decoded data is at hand: the trailer is left to check. -/
def trailed (feed : Feed) (d : Inflate.Decoded) : Stream :=
  let data := feed.bytes
  match d.ending with
  | .corrupt => .toEnd d.out (some (.other "corrupt deflate stream"))
  | .exhausted => brokenOff feed data.size d
  | .finished used =>
      if data.size < used + 8 then brokenOff feed used d
      else if word32 data used = (crc32 d.out).toNat ∧
          word32 data (used + 4) = d.out.size % Nat.pow 2 32 then .toEnd d.out none
      else .toEnd d.out (some (.other "corrupt gzip stream does not have a matching checksum"))

/-- The stream inside the wrapping of a body. -/
def decompress (feed : Feed) : Stream :=
  match header feed.bytes with
  | .error .short =>
      .toEnd .empty (some (feed.failure?.getD (.other "unexpected end of file")))
  | .error .invalid => .toEnd .empty (some (.other "invalid gzip header"))
  | .ok start => trailed feed (Inflate.inflate feed.bytes start (pieceEnds 0 feed.arrived))

end DocWatch.Archive.Gzip
