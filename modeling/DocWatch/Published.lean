import DocWatch.Snapshot
import DocWatch.Time.Instant

/-!
# What is published

Readers see one value: a snapshot together with the commit that it was built
from and the time when it was published. A swap puts a whole new value in its
place, so a reader that takes the value once has parts that belong together.
-/

namespace DocWatch

/-- A snapshot with its commit, and when it was published, unless it is the one
that the program started with. -/
structure Published where
  snapshot : Snapshot
  commit : String
  publishedAt : Option Time.Instant
  deriving DecidableEq, Repr

namespace Published

/-- A snapshot with its commit, not yet published by an update. -/
def ofSnapshot (snapshot : Snapshot) (commit : String) : Published :=
  ⟨snapshot, commit, none⟩

/-- The value with the time of its publication. -/
def publishedNow (p : Published) (now : Time.Instant) : Published :=
  { p with publishedAt := some now }

/-- What the program starts with: no documents and no commit. -/
def nothing : Published :=
  ofSnapshot .empty ""

end Published

/-- The place that readers take the published value from. -/
structure Shelf where
  current : Published
  deriving DecidableEq, Repr

/-- Puts a new value in place of the current one, which is handed back. -/
def Shelf.swap (s : Shelf) (next : Published) : Published × Shelf :=
  (s.current, ⟨next⟩)

end DocWatch
