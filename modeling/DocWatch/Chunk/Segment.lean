import DocWatch.Chunk.Paragraph

/-!
# Chunks of a document

Search hits point at a chunk, not at a whole document. Paragraphs are joined
for as long as the chunk stays within a limit of bytes. A heading always begins
a chunk and is the heading of the chunks that follow; a paragraph beyond the
limit is cut into chunks of its own; and a document has at least one chunk.
-/

namespace DocWatch

/-- The limit of bytes on the chunks that a snapshot indexes. -/
def defaultChunkLimit : Nat := 2000

/-- A section of a document. -/
structure Chunk where
  path : String
  index : Nat
  /-- The nearest heading at or before the start of the chunk. -/
  heading : Option String
  text : String
  deriving DecidableEq, Repr

/-- The name of a chunk: its document and its place in it. -/
def Chunk.id (c : Chunk) : String :=
  c.path ++ "#" ++ toString c.index

/-- The text of a chunk with its heading, before it is numbered. -/
structure Segment where
  heading : Option (List Char)
  text : List Char
  deriving DecidableEq, Repr

/-- The segments of a list of paragraphs, under a heading and with a segment
that may still grow. -/
def segmentsFrom (limit : Nat) (heading : Option (List Char)) (growing : Option Segment) :
    List (List Char) → List Segment
  | [] => growing.toList
  | para :: rest =>
      let heading' := (titleOf? para).or heading
      let kept := growing.filter fun s =>
        (titleOf? para).isNone &&
          Text.byteLength s.text + 2 + Text.byteLength para ≤ limit
      let closed := if kept.isNone then growing.toList else []
      if limit < Text.byteLength para then
        closed ++ (cutPieces limit para).map (Segment.mk heading') ++
          segmentsFrom limit heading' none rest
      else
        let next := match kept with
          | some s => ⟨s.heading, s.text ++ '\n' :: '\n' :: para⟩
          | none => ⟨heading', para⟩
        closed ++ segmentsFrom limit heading' (some next) rest

/-- The segments of a text. A limit of zero counts as one, and a blank text has
one empty segment. -/
def segments (limit : Nat) (text : List Char) : List Segment :=
  match segmentsFrom (max limit 1) none none (paragraphs text) with
  | [] => [⟨none, Text.trim text⟩]
  | found => found

/-- The segment at a place of a document as a chunk. -/
def Segment.toChunk (path : String) (s : Segment) (index : Nat) : Chunk :=
  ⟨path, index, s.heading.map String.ofList, String.ofList s.text⟩

/-- The chunks of a document. -/
def chunks (path text : String) (limit : Nat) : List Chunk :=
  ((segments limit text.toList).zipIdx).map fun (s, i) => s.toChunk path i

end DocWatch
