import DocWatch.Chunk.Segment
import DocWatch.Digest
import DocWatch.Index.Search
import DocWatch.Tree

/-!
# Snapshots

A snapshot is what is published: the text of every document, an index of all
their chunks and a fingerprint. It is built from a whole tree and never changes
afterwards, so whoever holds one keeps reading the same documents.
-/

namespace DocWatch

/-- Documents as text, with their index. -/
structure Snapshot where
  files : Table String
  index : Index
  /-- The digest of paths and contents in hexadecimal; empty where nothing was
  ever built. -/
  fingerprint : String
  totalBytes : Nat
  deriving DecidableEq, Repr

namespace Snapshot

/-- The snapshot before anything was built. -/
def empty : Snapshot := ⟨[], .empty, "", 0⟩

/-- A length as eight bytes, the lowest first. -/
def lengthBytes (n : Nat) : Bytes :=
  (List.range 8).map fun i => UInt8.ofNat (n / Nat.pow 256 i)

/-- What one document adds to the fingerprint: its path, a zero byte, the
length of its contents and the contents. -/
def framed (d : Document) : Bytes :=
  Text.encode d.path.toList ++ 0 :: lengthBytes d.data.length ++ d.data

/-- The bytes whose digest is the fingerprint: all documents in order of path. -/
def fingerprintInput (t : Tree) : Bytes :=
  t.documents.flatMap framed

/-- The text of a document: its contents, with a replacement character where
they are not well-formed. -/
def textOf (data : Bytes) : String :=
  String.ofList (Text.decodeLossy data)

/-- The chunks of a document, as passages of the index. -/
def passagesOf (d : Document) : List Passage :=
  (chunks d.path (textOf d.data) defaultChunkLimit).map fun c => ⟨c.id, c.path, c.text⟩

/-- The snapshot of a tree. -/
def build (t : Tree) : Except Fault Snapshot := do
  let index ← Index.build (t.documents.flatMap passagesOf)
  return {
    files := t.files.map fun (path, data) => (path, textOf data)
    index
    fingerprint := Digest.sha256Hex (fingerprintInput t)
    totalBytes := t.totalBytes }

/-- The text of a document. -/
def file? (s : Snapshot) (path : String) : Option String :=
  s.files.get? path

/-- The paths in ascending order. -/
def fileNames (s : Snapshot) : List String :=
  s.files.keys

/-- The number of documents. -/
def size (s : Snapshot) : Nat :=
  s.files.length

/-- A snapshot is refused where its index is, and for no other reason. -/
theorem build_eq_ok_iff {t : Tree} {s : Snapshot} :
    build t = .ok s ↔ ∃ index, Index.build (t.documents.flatMap passagesOf) = .ok index ∧
      s = ⟨t.files.map fun (path, data) => (path, textOf data), index,
        Digest.sha256Hex (fingerprintInput t), t.totalBytes⟩ := by
  rw [build]
  cases Index.build (t.documents.flatMap passagesOf) with
  | error fault =>
      constructor
      · nofun
      · nofun
  | ok index =>
      constructor
      · rintro ⟨⟩
        exact ⟨index, rfl, rfl⟩
      · rintro ⟨_, ⟨⟩, rfl⟩
        rfl

theorem exists_build {t : Tree}
    (h : (Index.build (t.documents.flatMap passagesOf)).toOption.isSome = true) :
    ∃ s, build t = .ok s := by
  cases hresult : Index.build (t.documents.flatMap passagesOf) with
  | error fault =>
      rw [hresult] at h
      cases h
  | ok index => exact ⟨_, build_eq_ok_iff.2 ⟨index, hresult, rfl⟩⟩

theorem files_of_build {t : Tree} {s : Snapshot} (h : build t = .ok s) :
    s.files = t.files.map fun (path, data) => (path, textOf data) := by
  obtain ⟨index, -, rfl⟩ := build_eq_ok_iff.1 h
  rfl

theorem index_of_build {t : Tree} {s : Snapshot} (h : build t = .ok s) :
    Index.build (t.documents.flatMap passagesOf) = .ok s.index := by
  obtain ⟨index, hindex, rfl⟩ := build_eq_ok_iff.1 h
  exact hindex

/-- A snapshot has as many documents as the tree that it was built from. -/
theorem size_of_build {t : Tree} {s : Snapshot} (h : build t = .ok s) :
    s.size = t.size := by
  rw [size, files_of_build h, List.length_map, Tree.size]

/-- A snapshot has the paths of the tree. -/
theorem fileNames_of_build {t : Tree} {s : Snapshot} (h : build t = .ok s) :
    s.fileNames = t.paths := by
  rw [fileNames, files_of_build h, Table.keys, List.map_map]
  rfl

/-- A snapshot holds the documents of the tree as text. -/
theorem file?_of_build {t : Tree} {s : Snapshot} (h : build t = .ok s) (path : String) :
    s.file? path = (t.get? path).map textOf := by
  rw [file?, files_of_build h]
  exact Table.get?_map textOf t.files path

/-- The number of chunks. -/
def chunkCount (s : Snapshot) : Nat :=
  s.index.chunkCount

/-- The documents that match a query, best first, at most `limit` of them. -/
def search (s : Snapshot) (query : String) (limit : Nat) : List (Hit Float) :=
  s.index.search query limit

end Snapshot

end DocWatch
