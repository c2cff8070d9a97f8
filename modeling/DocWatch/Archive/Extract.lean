import DocWatch.Archive.Gzip
import DocWatch.Archive.Path
import DocWatch.Archive.Tar

/-!
# Extracting the documents of an archive

Members that are no documents are passed over, whatever they hold. Among the
documents the extraction stops at the first that would pass a bound, before any
of its contents are read, and at any damage. An archive without documents is a
fault of its own.
-/

namespace DocWatch.Archive

/-- Which members are documents, and how much an archive may hold. -/
structure Filter where
  /-- The directory of the documents, below the root directory. -/
  docsDir : String
  /-- The extension of documents, without the dot. -/
  extension : String
  maxBytes : Nat
  maxFiles : Nat
  deriving DecidableEq, Repr

/-- The usual filter: Markdown below `docs`, up to 200 MiB in 10000 files. -/
def Filter.standard : Filter :=
  ⟨"docs", "md", 200 * 1024 * 1024, 10000⟩

/-- The path of the document that a member holds, or nothing if it is none. -/
def Filter.pathOf? (f : Filter) (m : Member) : Option String := do
  let below ← belowDocs? f.docsDir.toList m.name.toList
  let path ← confine? below
  if m.regular && hasExtension f.extension.toList path then some (String.ofList path) else none

/-- What has been extracted so far: the tree, and the sizes of all documents put
into it, those replaced since included. -/
structure Progress where
  tree : Tree
  extracted : Nat
  deriving DecidableEq, Repr

/-- Nothing extracted. -/
def Progress.start : Progress := ⟨.empty, 0⟩

/-- Takes the document at a path out of its member. -/
def Progress.take (f : Filter) (p : Progress) (path : String) (m : Member) :
    Except Fault Progress :=
  if f.maxBytes - p.extracted < m.size then
    .error (.sizeLimit (.extracted p.extracted m.name m.size f.maxBytes))
  else if f.maxFiles ≤ p.tree.size then
    .error (.sizeLimit (.documents f.maxFiles))
  else
    match m.payload with
    | .broken e => .error e.fault
    | .read bytes =>
        if bytes.length = m.size then .ok ⟨p.tree.insert ⟨path, bytes⟩, p.extracted + m.size⟩
        else .error (.malformedArchive (.truncated m.name m.size bytes.length))

/-- Goes on by one member, which is passed over if it is no document. -/
def Progress.next (f : Filter) (p : Progress) (m : Member) : Except Fault Progress :=
  match f.pathOf? m with
  | none => .ok p
  | some path => p.take f path m

/-- Takes all documents out of members, one after the other. -/
def Progress.takeAll (f : Filter) (p : Progress) : List Member → Except Fault Progress
  | [] => .ok p
  | m :: rest =>
      match p.next f m with
      | .error e => .error e
      | .ok q => takeAll f q rest

/-- The documents of an archive. -/
def Listing.extract (f : Filter) (l : Listing) : Except Fault Tree :=
  match Progress.start.takeAll f l.members with
  | .error e => .error e
  | .ok p =>
      match l.ending with
      | some e => .error e.fault
      | none => if p.tree.size = 0 then .error .emptyArchive else .ok p.tree

/-- The documents of a compressed archive as it arrives. -/
def extract (f : Filter) (feed : Feed) : Except Fault Tree :=
  (Tar.listing (Gzip.decompress feed)).extract f

end DocWatch.Archive
