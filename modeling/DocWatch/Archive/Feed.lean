import DocWatch.Fault
import DocWatch.Tree

/-!
# The body of a download, piece by piece

An archive arrives in pieces, and at any point a piece may fail to arrive. All
that follows a failure is lost: whoever reads the body sees the bytes before it
and then the failure.
-/

namespace DocWatch.Archive

/-- One piece of a body. -/
inductive Piece where
  | data (bytes : Bytes)
  | failure (error : ReadError)
  deriving DecidableEq, Repr

/-- A body as pieces in the order of their arrival. -/
abbrev Feed := List Piece

namespace Feed

/-- The pieces of data before the first failure. -/
def arrived : Feed → List Bytes
  | .data bytes :: rest => bytes :: arrived rest
  | _ => []

/-- All bytes before the first failure. -/
def bytes (f : Feed) : ByteArray :=
  ⟨f.arrived.flatten.toArray⟩

/-- The body as it arrives when it is ended early, behind some number of its
pieces. -/
def cutAt (f : Feed) : Option Nat → Feed
  | none => f
  | some n => f.take n

/-- The first failure. -/
def failure? : Feed → Option ReadError
  | [] => none
  | .data _ :: rest => failure? rest
  | .failure e :: _ => some e

end Feed

/-- A readable stream: bytes, and what a reader meets behind the last of them,
which is either the end or an error. An error may come early: bytes that were
decoded ahead of the reader are handed out to one more read only, and a read
that starts behind `due` meets the error at once. -/
structure Stream where
  bytes : ByteArray
  ending : Option ReadError
  due : Nat

/-- A stream that is handed out to its last byte. -/
def Stream.toEnd (bytes : ByteArray) (ending : Option ReadError) : Stream :=
  ⟨bytes, ending, bytes.size⟩

/-- The byte at a place, and zero behind the last one. -/
def byteAt (data : ByteArray) (i : Nat) : UInt8 :=
  if h : i < data.size then data[i] else 0

/-- The bytes from a place on, `n` of them or as many as there are. -/
def slice (data : ByteArray) (start n : Nat) : Bytes :=
  (data.extract start (start + n)).toList

end DocWatch.Archive
