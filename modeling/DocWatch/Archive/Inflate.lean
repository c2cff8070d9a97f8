import DocWatch.Archive.Feed
import DocWatch.Archive.Huffman

/-!
# Decompressing DEFLATE data (RFC 1951)

The decoder works ahead of its reader: it decodes all that the piece at hand
allows, up to the end of a window of 32 KiB, and hands the window out from
there. Bytes that it decoded ahead are lost when the same run then meets data
that is corrupt, so a reader sees the corruption at the start of that run. Data
that merely ends loses nothing.
-/

namespace DocWatch.Archive.Inflate

/-- How the decoding of a stream ended. -/
inductive Ending where
  /-- Behind the last block; the number of bytes that were used up. -/
  | finished (used : Nat)
  /-- The data ended before the last block did. -/
  | exhausted
  /-- The data is no DEFLATE stream. -/
  | corrupt

/-- The size of the window that is decoded ahead. -/
def windowSize : Nat := 32768

/-- The state between two symbols. -/
structure State where
  /-- The position in the data, in bits. -/
  position : Nat
  /-- The bytes decoded so far. -/
  out : ByteArray
  /-- How many of these no corruption can take back. -/
  settled : Nat
  /-- Where the pieces end that have not been used up, in bytes. -/
  pieceEnds : List Nat

/-- Moves on to a position. Where that uses bits of a new piece, all that was
decoded from the pieces before has been handed out. -/
def State.moveTo (s : State) (position : Nat) : State :=
  match s with
  | ⟨_, out, settled, pieceEnds⟩ =>
      match pieceEnds with
      | [] => ⟨position, out, settled, []⟩
      | e :: rest =>
          if 8 * e < position then
            let size := out.size
            ⟨position, out, size, rest.dropWhile (8 * · < position)⟩
          else ⟨position, out, settled, e :: rest⟩

/-- Appends a byte. A full window is handed out before decoding goes on. -/
def State.push (s : State) (b : UInt8) : State :=
  match s with
  | ⟨position, out, settled, pieceEnds⟩ =>
      let out := out.push b
      let size := out.size
      ⟨position, out, if size % windowSize = 0 then size else settled, pieceEnds⟩

/-- Appends `n` bytes that repeat those `distance` back. Before the first byte
the window holds zeros. -/
def State.repeatBack (distance : Nat) : Nat → State → State
  | 0, s => s
  | n + 1, s =>
      let size := s.out.size
      let b := if distance ≤ size then byteAt s.out (size - distance) else 0
      repeatBack distance n (s.push b)

/-- The bit at a position. -/
def bitAt (data : ByteArray) (position : Nat) : Option Nat :=
  if h : position / 8 < data.size then
    some ((data[position / 8]).toNat / Nat.pow 2 (position % 8) % 2)
  else none

/-- The number that the next `n` bits make, the lowest first. -/
def bitsAt (data : ByteArray) (position : Nat) : Nat → Option Nat
  | 0 => some 0
  | n + 1 => do
      let low ← bitAt data position
      let high ← bitsAt data (position + 1) n
      some (low + 2 * high)

/-- The shortest length of each length symbol from 257 on, and its extra bits. -/
def lengthTable : Array (Nat × Nat) :=
  #[(3, 0), (4, 0), (5, 0), (6, 0), (7, 0), (8, 0), (9, 0), (10, 0), (11, 1), (13, 1), (15, 1),
    (17, 1), (19, 2), (23, 2), (27, 2), (31, 2), (35, 3), (43, 3), (51, 3), (59, 3), (67, 4),
    (83, 4), (99, 4), (115, 4), (131, 5), (163, 5), (195, 5), (227, 5), (258, 0)]

/-- The shortest distance of each distance symbol, and its extra bits. -/
def distanceTable : Array (Nat × Nat) :=
  #[(1, 0), (2, 0), (3, 0), (4, 0), (5, 1), (7, 1), (9, 2), (13, 2), (17, 3), (25, 3), (33, 4),
    (49, 4), (65, 5), (97, 5), (129, 6), (193, 6), (257, 7), (385, 7), (513, 8), (769, 8),
    (1025, 9), (1537, 9), (2049, 10), (3073, 10), (4097, 11), (6145, 11), (8193, 12), (12289, 12),
    (16385, 13), (24577, 13)]

/-- The order in which the lengths of the code for code lengths are listed. -/
def lengthOrder : List Nat :=
  [16, 17, 18, 0, 8, 7, 9, 6, 10, 5, 11, 4, 12, 3, 13, 2, 14, 1, 15]

/-- The two codes of a block with fixed codes. -/
def fixedCodes : Option (Code × Code) := do
  let literals ← Code.ofLengths? false
    (List.replicate 144 8 ++ List.replicate 112 9 ++ List.replicate 24 7 ++ List.replicate 8 8)
  let distances ← Code.ofLengths? false (List.replicate 32 5)
  some (literals, distances)

/-- What a step of a reader comes to: a value with the position behind it, or
one of the two ways to fail. -/
inductive Step (α : Type) where
  | value (v : α) (position : Nat)
  | exhausted
  | corrupt (position : Nat)

/-- Reads `n` bits as a step. -/
def Step.bits (data : ByteArray) (position n : Nat) : Step Nat :=
  match bitsAt data position n with
  | some v => .value v (position + n)
  | none => .exhausted

/-- Goes on with a value. -/
def Step.andThen {α β : Type} (s : Step α) (f : α → Nat → Step β) : Step β :=
  match s with
  | .value v position => f v position
  | .exhausted => .exhausted
  | .corrupt position => .corrupt position

/-- Reads a codeword as a step. -/
def Step.symbol (code : Code) (data : ByteArray) (position : Nat) : Step Nat :=
  match code.read (bitAt data) position with
  | .symbol s position => .value s position
  | .exhausted => .exhausted
  | .invalid position => .corrupt position

/-- Reads the three-bit lengths of the code for code lengths, in their order. -/
def readOrdered (data : ByteArray) (position : Nat) : List Nat → Step (List (Nat × Nat))
  | [] => .value [] position
  | symbol :: rest =>
      (Step.bits data position 3).andThen fun length position =>
        (readOrdered data position rest).andThen fun more position =>
          .value ((symbol, length) :: more) position

/-- Reads code lengths until there are `total` of them; `lengths` holds those
read so far in reverse. A symbol may stand for a run of lengths. -/
def readLengths (code : Code) (data : ByteArray) (total : Nat) :
    Nat → List Nat → Nat → Step (List Nat)
  | 0, _, position => .corrupt position
  | fuel + 1, lengths, position =>
      if total < lengths.length then .corrupt position
      else if lengths.length = total then .value lengths.reverse position
      else
        (Step.symbol code data position).andThen fun s position =>
          if s < 16 then readLengths code data total fuel (s :: lengths) position
          else if s = 16 then
            match lengths with
            | [] => .corrupt position
            | last :: _ =>
                (Step.bits data position 2).andThen fun n position =>
                  readLengths code data total fuel (List.replicate (3 + n) last ++ lengths) position
          else if s = 17 then
            (Step.bits data position 3).andThen fun n position =>
              readLengths code data total fuel (List.replicate (3 + n) 0 ++ lengths) position
          else
            (Step.bits data position 7).andThen fun n position =>
              readLengths code data total fuel (List.replicate (11 + n) 0 ++ lengths) position

/-- Reads the two codes at the front of a block that brings its own. -/
def readCodes (data : ByteArray) (position : Nat) : Step (Code × Code) :=
  (Step.bits data position 5).andThen fun hlit position =>
    (Step.bits data position 5).andThen fun hdist position =>
      (Step.bits data position 4).andThen fun hclen position =>
        let literalCount := hlit + 257
        let distanceCount := hdist + 1
        if 286 < literalCount ∨ 30 < distanceCount then .corrupt position
        else
          (readOrdered data position (lengthOrder.take (hclen + 4))).andThen fun ordered position =>
            let lengths := (List.range 19).map fun s => (ordered.lookup s).getD 0
            match Code.ofLengths? false lengths with
            | none => .corrupt position
            | some code =>
                (readLengths code data (literalCount + distanceCount) 400 [] position).andThen
                  fun all position =>
                    match Code.ofLengths? true (all.take literalCount),
                      Code.ofLengths? true (all.drop literalCount) with
                    | some literals, some distances => .value (literals, distances) position
                    | _, _ => .corrupt position

/-- What comes next in the stream. -/
inductive Expect where
  | block
  | symbols (literals distances : Code) (last : Bool)
  | stored (left : Nat) (last : Bool)
  | nothing

/-- One symbol of a compressed block, with its match if it has one. -/
def oneSymbol (data : ByteArray) (literals distances : Code) (position : Nat) :
    Step (Option (Nat × Option Nat)) :=
  (Step.symbol literals data position).andThen fun s position =>
    if s < 256 then .value (some (s, none)) position
    else if s = 256 then .value none position
    else
      match lengthTable[s - 257]? with
      | none => .corrupt position
      | some (base, extra) =>
          (Step.bits data position extra).andThen fun more position =>
            (Step.symbol distances data position).andThen fun d position =>
              match distanceTable[d]? with
              | none => .corrupt position
              | some (dbase, dextra) =>
                  (Step.bits data position dextra).andThen fun dmore position =>
                    .value (some (base + more, some (dbase + dmore))) position

/-- The header of a block: what follows it. -/
def blockHeader (data : ByteArray) (position : Nat) : Step Expect :=
  (Step.bits data position 1).andThen fun last position =>
    (Step.bits data position 2).andThen fun kind position =>
      match kind with
      | 0 =>
          let start := (position + 7) / 8 * 8
          (Step.bits data start 16).andThen fun length position =>
            (Step.bits data position 16).andThen fun check position =>
              if length + check = 65535 then .value (.stored length (last = 1)) position
              else .corrupt position
      | 1 =>
          match fixedCodes with
          | some (literals, distances) => .value (.symbols literals distances (last = 1)) position
          | none => .corrupt position
      | 2 =>
          (readCodes data position).andThen fun (literals, distances) position =>
            .value (.symbols literals distances (last = 1)) position
      | _ => .corrupt position

/-- What follows the end of a block. -/
def afterBlock (last : Bool) : Expect :=
  if last then .nothing else .block

/-- Decodes to the end. Every step but the last uses up at least one bit, so
the number of bits is fuel enough. -/
def run (data : ByteArray) : Nat → Expect → State → State × Ending
  | 0, _, s => (s, .exhausted)
  | fuel + 1, expect, s =>
      let failed (position : Nat) : State × Ending := (s.moveTo position, .corrupt)
      match expect with
      | .nothing => (s, .finished ((s.position + 7) / 8))
      | .block =>
          match blockHeader data s.position with
          | .value next position => run data fuel next (s.moveTo position)
          | .exhausted => (s, .exhausted)
          | .corrupt position => failed position
      | .stored 0 last => run data fuel (afterBlock last) s
      | .stored (left + 1) last =>
          match bitsAt data s.position 8 with
          | some b =>
              run data fuel (.stored left last) ((s.moveTo (s.position + 8)).push (UInt8.ofNat b))
          | none => (s, .exhausted)
      | .symbols literals distances last =>
          match oneSymbol data literals distances s.position with
          | .value none position => run data fuel (afterBlock last) (s.moveTo position)
          | .value (some (b, none)) position =>
              run data fuel expect ((s.moveTo position).push (UInt8.ofNat b))
          | .value (some (length, some distance)) position =>
              run data fuel expect ((s.moveTo position).repeatBack distance length)
          | .exhausted => (s, .exhausted)
          | .corrupt position => failed position

/-- What a decoder makes of its data: the bytes that a reader gets to see, how
the decoding ended, and where the run that was decoded ahead last begins. -/
structure Decoded where
  out : ByteArray
  ending : Ending
  lastRun : Nat

/-- Decodes data from a byte on. The pieces it arrived in end at `pieceEnds`. -/
def inflate (data : ByteArray) (start : Nat) (pieceEnds : List Nat) : Decoded :=
  let init : State := ⟨8 * start, .empty, 0, pieceEnds⟩
  let (s, ending) := run data (16 * data.size + 16) .block init
  match ending with
  | .corrupt => ⟨s.out.extract 0 s.settled, .corrupt, s.settled⟩
  | _ => ⟨s.out, ending, s.settled⟩

end DocWatch.Archive.Inflate
