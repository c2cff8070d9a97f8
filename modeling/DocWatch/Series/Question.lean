import DocWatch.Net.Transport
import DocWatch.Text.Blank
import DocWatch.Time.Instant
import DocWatch.Time.Span
import DocWatch.Version

/-!
# What is asked of the time-series database

An expression is evaluated at one instant or over a range of time, or the
values of a label are listed. The expression goes through as it is. A question
becomes the address of a resource with parameters behind it, where instants
stand in seconds with three decimals and steps in seconds.
-/

namespace DocWatch.Series

/-- A question to the database. -/
inductive Question where
  | instant (expr : String) (time : Time.Instant)
  | range (expr : String) (first last : Time.Instant) (step : Time.Span)
  | labelValues (label : String)
  deriving DecidableEq, Repr

/-- A number of milliseconds in seconds with three decimals. -/
def millisText (millis : Int) : String :=
  String.ofList (Binary64.signText (millis < 0) ++
    Binary64.withPoint 3 (Binary64.decimal millis.natAbs))

/-- An instant as a parameter, cut off to milliseconds. -/
def instantText (t : Time.Instant) : String :=
  millisText t.millis

/-- A step as a parameter: seconds in the fewest digits that read back. -/
def stepText (step : Time.Span) : String :=
  step.toSeconds.plain

namespace Question

/-- Where a question is answered, below the address of the database. -/
def path : Question → String
  | .instant .. => "/api/v1/query"
  | .range .. => "/api/v1/query_range"
  | .labelValues label => "/api/v1/label/" ++ label ++ "/values"

/-- The parameters of a question. -/
def params : Question → List (String × String)
  | .instant expr time => [("query", expr), ("time", instantText time)]
  | .range expr first last step =>
      [("query", expr), ("start", instantText first), ("end", instantText last),
       ("step", stepText step)]
  | .labelValues _ => []

end Question

/-- A database, by its address. -/
structure Database where
  baseUrl : String
  deriving DecidableEq, Repr

namespace Database

/-- The database at an address. Slashes at its end do not count. -/
def ofUrl (url : String) : Database :=
  ⟨String.ofList (Text.trimEnd (· == '/') url.toList)⟩

/-- The address of the resource that answers a question. -/
def url (d : Database) (q : Question) : String :=
  d.baseUrl ++ q.path

/-- The request that puts a question. -/
def request (d : Database) (q : Question) : Net.Request :=
  ⟨d.url q, q.params, userAgent⟩

end Database

end DocWatch.Series
