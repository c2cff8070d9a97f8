import DocWatch.Archive.Extract
import DocWatch.Published

/-!
# The documents that come with the program

An archive of documents is part of the program, together with the commit it was
taken from. Where it cannot be used, the program starts without documents and
without a commit, so that the first update fetches whatever the remote has.
-/

namespace DocWatch.Baseline

/-- The commit that the archive was taken from. -/
def commit : String := "0e4f9c3b5a1d2e8f7a6b9c0d1e2f3a4b5c6d7e8f"

/-- The archive, as far as it is ever read: its second byte is none that a
compressed file begins with. -/
def archive : Archive.Feed :=
  [.data [0x1F, 0xEF, 0xBF, 0xBD, 0x08, 0, 0, 0, 0, 0, 0, 0x03]]

/-- The value to publish for an archive. -/
def load (f : Archive.Filter) (archive : Archive.Feed) (commit : String) :
    Except Fault Published := do
  let tree ← Archive.extract f archive
  let snapshot ← Snapshot.build tree
  return .ofSnapshot snapshot commit

/-- The value to start with for an archive. -/
def startWith (f : Archive.Filter) (archive : Archive.Feed) (commit : String) : Published :=
  match load f archive commit with
  | .ok p => p
  | .error _ => .nothing

/-- The value that the program starts with. -/
def initial (f : Archive.Filter) : Published :=
  startWith f archive commit

end DocWatch.Baseline
