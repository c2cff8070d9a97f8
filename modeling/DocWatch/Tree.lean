import DocWatch.Table

/-!
# Trees of documents

The documents that an archive holds, by path. A later document under a path
takes the place of the earlier one. The tree keeps the number of bytes that its
documents hold together.
-/

namespace DocWatch

/-- The contents of a file. -/
abbrev Bytes := List UInt8

/-- A file with its path. -/
structure Document where
  path : String
  data : Bytes
  deriving DecidableEq, Repr

/-- Documents by path, and the bytes that they hold together. -/
structure Tree where
  files : Table Bytes
  totalBytes : Nat
  deriving DecidableEq, Repr

namespace Tree

/-- The tree without documents. -/
def empty : Tree := ⟨[], 0⟩

/-- Puts a document into the tree, in place of one with its path. -/
def insert (t : Tree) (d : Document) : Tree :=
  let replaced := ((t.files.get? d.path).map List.length).getD 0
  ⟨t.files.insert d.path d.data, t.totalBytes - replaced + d.data.length⟩

/-- The tree of a list of documents, put in one after the other. -/
def ofDocuments (ds : List Document) : Tree :=
  ds.foldl insert empty

/-- The contents under a path. -/
def get? (t : Tree) (path : String) : Option Bytes :=
  t.files.get? path

/-- The number of documents. -/
def size (t : Tree) : Nat :=
  t.files.length

/-- The paths in ascending order. -/
def paths (t : Tree) : List String :=
  t.files.keys

/-- The documents in ascending order of path. -/
def documents (t : Tree) : List Document :=
  t.files.map fun (path, data) => ⟨path, data⟩

end Tree

end DocWatch
