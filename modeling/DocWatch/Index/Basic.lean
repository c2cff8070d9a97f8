import DocWatch.Fault
import DocWatch.Index.Token
import DocWatch.Table

/-!
# The inverted index

The index knows for every term the chunks that contain it and how often. It is
built once and only read afterwards.
-/

namespace DocWatch

/-- A text to be found: its name, the document it belongs to and its words. -/
structure Passage where
  id : String
  path : String
  text : String
  deriving DecidableEq, Repr

/-- A passage with the number of its terms. -/
structure Entry where
  passage : Passage
  length : Nat
  deriving DecidableEq, Repr

/-- That a term occurs `tf` times in the chunk with an ordinal. -/
structure Posting where
  chunk : Nat
  tf : Nat
  deriving DecidableEq, Repr

/-- The chunks in order, and for each term its postings in order of chunk. -/
structure Index where
  entries : List Entry
  postings : Table (List Posting)
  /-- The number of terms of all chunks together, repetitions counted. -/
  totalLength : Nat
  deriving DecidableEq, Repr

namespace Index

/-- The index of nothing. -/
def empty : Index := ⟨[], [], 0⟩

/-- The number of chunks. -/
def chunkCount (ix : Index) : Nat :=
  ix.entries.length

/-- The number of terms. -/
def termCount (ix : Index) : Nat :=
  ix.postings.length

/-- One more occurrence of a term in the latest chunk. -/
def countTerm (chunk : Nat) (found : Option (List Posting)) : List Posting :=
  match found with
  | none => [⟨chunk, 1⟩]
  | some ps =>
      match ps.getLast? with
      | some p => if p.chunk = chunk then ps.dropLast ++ [⟨chunk, p.tf + 1⟩] else ps ++ [⟨chunk, 1⟩]
      | none => [⟨chunk, 1⟩]

/-- Adds a passage behind the chunks of an index. -/
def add (ix : Index) (p : Passage) : Index :=
  let tokens := tokenize p.text
  let ordinal := ix.entries.length
  ⟨ix.entries ++ [⟨p, tokens.length⟩],
    tokens.foldl (fun t token => t.alter (countTerm ordinal) token) ix.postings,
    ix.totalLength + tokens.length⟩

/-- The index of a list of passages, in their order; refused where chunks or
terms could not be counted in 32 bits. -/
def build (passages : List Passage) : Except Fault Index :=
  if indexCapacity < passages.length then
    .error (.indexBuild (.tooManyChunks passages.length))
  else
    match passages.find? fun p => indexCapacity < (tokenize p.text).length with
    | some p => .error (.indexBuild (.tooManyTokens p.id))
    | none => .ok (passages.foldl add empty)

end Index

end DocWatch
