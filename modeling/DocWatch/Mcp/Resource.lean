import DocWatch.Net.Url
import DocWatch.Tool.Registry

/-!
# Documents as resources

The published documents can be read under addresses of their own: one address
lists their paths, and every document has its path behind that. The path of an
address is taken as it stands there, escapes included.
-/

namespace DocWatch.Mcp

/-- Why a request gets an error. -/
inductive RequestFault where
  | unknownMethod (method : String)
  | unknownTool (name : String)
  | invalidUri (uri : String) (fault : Net.UrlFault)
  /-- The address of the list has a slash at its end. -/
  | missingFileName
  | unknownResource (uri : String)
  | noDocument (path : String)
  deriving DecidableEq, Repr

/-- The number of a fault. -/
def RequestFault.code : RequestFault → Int
  | .unknownMethod _ | .unknownTool _ => -32601
  | .invalidUri .. | .missingFileName => -32602
  | .unknownResource _ | .noDocument _ => -32002

/-- The text of a fault. -/
def RequestFault.message : RequestFault → String
  | .unknownMethod method => method
  | .unknownTool name => Registry.unknownText name
  | .invalidUri uri fault => "invalid resource URI " ++ uri ++ ": " ++ fault.message
  | .missingFileName => "at least 1 filename is required when requesting docs to read"
  | .unknownResource uri => "unknown resource: " ++ uri
  | .noDocument path => "document not found: " ++ path

/-- What is read at an address. -/
structure ResourceText where
  uri : String
  mimeType : String
  text : String
  deriving DecidableEq, Repr

/-- The scheme of the addresses. -/
def resourceScheme : List Char := "prometheus".toList

/-- The host of the addresses. -/
def resourceHost : List Char := "docs".toList

/-- The address of the list. -/
def listUri : String := "prometheus://docs"

/-- The form of the address of a document. -/
def documentTemplate : String := "prometheus://docs/\x7b+file\x7d"

/-- The path of a document in the path of an address: slashes at its front do
not count. -/
def filePart (path : List Char) : List Char :=
  path.dropWhile (· == '/')

/-- Reads the resource at an address that has been taken apart. -/
def readAt (p : Published) (uri : String) (url : Net.Url) : Except RequestFault ResourceText :=
  if url.scheme ≠ resourceScheme ∨ url.host ≠ some resourceHost then .error (.unknownResource uri)
  else if filePart url.path = [] then
    if url.path = ['/'] then .error .missingFileName
    else .ok ⟨uri, "text/plain", "\n".intercalate p.snapshot.fileNames⟩
  else
    let path := String.ofList (filePart url.path)
    match p.snapshot.file? path with
    | some text => .ok ⟨uri, "text/markdown", text⟩
    | none => .error (.noDocument path)

/-- Reads the resource at an address. -/
def readResource (p : Published) (uri : String) : Except RequestFault ResourceText :=
  match Net.Url.parse uri with
  | .error fault => .error (.invalidUri uri fault)
  | .ok url => readAt p uri url

end DocWatch.Mcp
