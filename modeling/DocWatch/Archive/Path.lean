import DocWatch.Text.Blank
import DocWatch.Text.Occurrence

/-!
# Which member of an archive is which document

The archive has one directory at its root, and below it the directory of the
documents. What follows that is the path of the document, brought into one
form. A path that could lead out of the tree names no document.
-/

namespace DocWatch.Archive

/-- What follows the root directory and the directory of the documents in the
name of a member. -/
def belowDocs? (docsDir name : List Char) : Option (List Char) := do
  let (_, rest) ← Text.splitOnce '/' name
  let below ← Text.stripFront? docsDir rest
  match below with
  | '/' :: path => if path = [] then none else some path
  | _ => none

/-- What a piece of a path means when the path is followed step by step. -/
inductive Component where
  /-- A slash at the front: the root of the file system. -/
  | root
  /-- A dot at the front: the place where the path starts. -/
  | here
  /-- Two dots: the place above. -/
  | up
  | name (part : List Char)
  deriving DecidableEq, Repr

/-- The meaning of a piece between slashes. An empty one and a dot mean nothing. -/
def Component.ofPiece? : List Char → Option Component
  | [] => none
  | ['.'] => none
  | ['.', '.'] => some .up
  | part => some (.name part)

/-- The components of a path. Only at its front do an empty piece and a dot count. -/
def components (path : List Char) : List Component :=
  match Text.splitBy (· = '/') path with
  | [] :: next :: rest => .root :: (next :: rest).filterMap Component.ofPiece?
  | ['.'] :: rest => .here :: rest.filterMap Component.ofPiece?
  | pieces => pieces.filterMap Component.ofPiece?

/-- Whether a component starts with an ASCII letter and a colon. -/
def isDrive : List Char → Bool
  | c :: ':' :: _ => c.isAlpha
  | _ => false

/-- The names that components lead through, if none of these leads elsewhere. -/
def namesOf? : List Component → Option (List (List Char))
  | [] => some []
  | .here :: rest => namesOf? rest
  | .root :: _ | .up :: _ => none
  | .name part :: rest => if isDrive part then none else (namesOf? rest).map (part :: ·)

/-- Names joined by slashes. -/
def joinPath (parts : List (List Char)) : List Char :=
  List.intercalate ['/'] parts

/-- The one form of a relative path, or nothing if it has a backslash, is
absolute, goes up, names a drive, or names nothing. -/
def confine? (path : List Char) : Option (List Char) :=
  if path.contains '\\' then none
  else
    match namesOf? (components path) with
    | none | some [] => none
    | some parts => some (joinPath parts)

/-- What follows the last occurrence of a character, or everything. -/
def afterLast (c : Char) (s : List Char) : List Char :=
  (s.reverse.takeWhile (· ≠ c)).reverse

/-- What follows the last dot in the last component of a path, unless nothing
stands before that dot. -/
def extension? (path : List Char) : Option (List Char) :=
  let file := afterLast '/' path
  let ending := afterLast '.' file
  let front := file.take (file.length - ending.length - 1)
  if file = ['.', '.'] ∨ ending.length = file.length ∨ front = [] then none else some ending

/-- Whether a path has an extension, ASCII letters compared without case. -/
def hasExtension (extension path : List Char) : Bool :=
  match extension? path with
  | some e => e.map Char.toLower = extension.map Char.toLower
  | none => false

end DocWatch.Archive
