import DocWatch.Text.Quoted

/-!
# What can go wrong while documents are fetched

The causes of a failed listing, download, extraction or build, each with the
one text that reports it. A cause keeps the facts it was found with; `stated`
causes are those that another party put into words.
-/

namespace DocWatch

/-- Why the refs of the remote could not be listed. -/
inductive ListingFault where
  /-- The listing program could not be started. -/
  | notStarted (why : String)
  /-- The listing program ended without success. -/
  | exited (status : String) (complaint : String)
  /-- A line of the listing has no tab. -/
  | lineWithoutTab (line : String)
  /-- What stands before the tab is no commit hash. -/
  | notAHash (text : String)
  | stated (text : String)
  deriving DecidableEq, Repr

/-- Which bound an archive or its contents would pass. -/
inductive Excess where
  /-- More compressed bytes arrived than allowed. -/
  | received (limit : Nat)
  /-- The response declares more compressed bytes than allowed. -/
  | declared (length limit : Nat)
  /-- The next document would pass the bound on extracted bytes. -/
  | extracted (soFar : Nat) (name : String) (size limit : Nat)
  /-- One more document would pass the bound on their number. -/
  | documents (limit : Nat)
  | stated (text : String)
  deriving DecidableEq, Repr

/-- What is damaged in an archive. -/
inductive Damage where
  /-- The compressed stream or the framing of its entries cannot be read. -/
  | unreadable (detail : String)
  /-- An entry ends before its declared size. -/
  | truncated (name : String) (expected read : Nat)
  deriving DecidableEq, Repr

/-- What keeps a snapshot from being indexed. -/
inductive IndexFault where
  | tooManyChunks (count : Nat)
  | tooManyTokens (chunk : String)
  | stated (text : String)
  deriving DecidableEq, Repr

/-- Why documents could not be brought up to date. -/
inductive Fault where
  | remoteQuery (cause : ListingFault)
  | refNotFound (reference : String)
  | download (status : Option Nat) (message : String)
  | sizeLimit (excess : Excess)
  | malformedArchive (damage : Damage)
  | emptyArchive
  | indexBuild (cause : IndexFault)
  | cancelled
  deriving DecidableEq, Repr

/-- The largest number of chunks and of tokens in one chunk. -/
def indexCapacity : Nat := Nat.pow 2 32 - 1

/-- The text of a listing fault. -/
def ListingFault.message : ListingFault → String
  | .notStarted why => "failed to execute 'git ls-remote'. Is git installed? " ++ why
  | .exited status complaint => "git ls-remote exited with " ++ status ++ ": " ++ complaint
  | .lineWithoutTab line => "malformed ls-remote line: " ++ String.ofList (Text.quoted line.toList)
  | .notAHash text => "malformed commit hash: " ++ String.ofList (Text.quoted text.toList)
  | .stated text => text

/-- The text that names the bound. -/
def Excess.message : Excess → String
  | .received limit => "archive exceeds maximum size of " ++ toString limit ++ " bytes"
  | .declared length limit =>
      "archive Content-Length " ++ toString length ++ " exceeds maximum size of " ++
        toString limit ++ " bytes"
  | .extracted soFar name size limit =>
      "archive exceeds maximum decompressed size: extracted " ++ toString soFar ++
        " bytes, next file (" ++ name ++ ", " ++ toString size ++
        " bytes) would exceed limit of " ++ toString limit ++ " bytes"
  | .documents limit => "archive exceeds maximum file count of " ++ toString limit
  | .stated text => text

/-- The text that names the damage. -/
def Damage.message : Damage → String
  | .unreadable detail => detail
  | .truncated name expected read =>
      "entry " ++ name ++ " is truncated: expected " ++ toString expected ++ " bytes, read " ++
        toString read

/-- The text of an indexing fault. -/
def IndexFault.message : IndexFault → String
  | .tooManyChunks count =>
      toString count ++ " chunks exceed the index capacity of " ++ toString indexCapacity
  | .tooManyTokens chunk => "chunk " ++ chunk ++ " has too many tokens"
  | .stated text => text

/-- The text of a fault. -/
def Fault.message : Fault → String
  | .remoteQuery cause => "failed to query remote refs: " ++ cause.message
  | .refNotFound reference => reference ++ " not found"
  | .download (some code) message =>
      "archive download returned status " ++ toString code ++ ": " ++ message
  | .download none message => "archive download failed: " ++ message
  | .sizeLimit excess => excess.message
  | .malformedArchive damage => "malformed archive: " ++ damage.message
  | .emptyArchive => "no markdown files found in archive"
  | .indexBuild cause => "failed to build search index: " ++ cause.message
  | .cancelled => "update cancelled"

/-- The word for the kind of a fault. -/
def Fault.kind : Fault → String
  | .remoteQuery _ => "RemoteQuery"
  | .refNotFound _ => "RefNotFound"
  | .download .. => "Download"
  | .sizeLimit _ => "SizeLimitExceeded"
  | .malformedArchive _ => "MalformedArchive"
  | .emptyArchive => "EmptyArchive"
  | .indexBuild _ => "IndexBuild"
  | .cancelled => "Cancelled"

/-- Why a body stream broke off: causes that the stream itself raises, which
must come out unchanged at the far end of the extraction. -/
inductive Abort where
  | tooLarge (limit : Nat)
  | transport (message : String)
  | cancelled
  deriving DecidableEq, Repr

/-- A failed read of a body: an abort of the stream, or a fault of the bytes. -/
inductive ReadError where
  | abort (cause : Abort)
  | other (detail : String)
  deriving DecidableEq, Repr

/-- The text of an abort. -/
def Abort.message : Abort → String
  | .tooLarge limit => (Excess.received limit).message
  | .transport message => "transport error: " ++ message
  | .cancelled => "stream cancelled"

/-- The text of a failed read. -/
def ReadError.message : ReadError → String
  | .abort cause => cause.message
  | .other detail => detail

/-- The fault that a failed read is reported as: an abort by its own cause, all
else as a damaged archive. -/
def ReadError.fault : ReadError → Fault
  | .abort (.tooLarge limit) => .sizeLimit (.received limit)
  | .abort (.transport message) => .download none message
  | .abort .cancelled => .cancelled
  | .other detail => .malformedArchive (.unreadable detail)

/-- The stages of an update. -/
inductive Stage where
  | checkingRemote
  | downloading
  | extracting
  | indexing
  | publishing
  deriving DecidableEq, Repr

/-- The name of a stage. -/
def Stage.name : Stage → String
  | .checkingRemote => "checking_remote"
  | .downloading => "downloading"
  | .extracting => "extracting"
  | .indexing => "indexing"
  | .publishing => "publishing"

/-- A fault together with the stage of the update that met it. -/
structure UpdateFault where
  stage : Stage
  fault : Fault
  deriving DecidableEq, Repr

/-- The text of a failed update. -/
def UpdateFault.message (e : UpdateFault) : String :=
  "docs update failed while " ++ e.stage.name ++ ": " ++ e.fault.message

/-- Whether an update ended because it was cancelled. -/
def UpdateFault.isCancelled (e : UpdateFault) : Bool :=
  e.fault = .cancelled

end DocWatch
