import DocWatch.Tool.Documents
import DocWatch.Tool.Queries

/-!
# The tools that are offered

The tools stand in one list. A name stands for the first tool that bears it.
-/

namespace DocWatch

/-- Tools in the order in which they are listed. -/
abbrev Registry := List Tool

namespace Registry

/-- The tools that every server offers. -/
def standard : Registry :=
  [.docsList, .docsRead, .docsSearch, .docsRefresh, .query, .rangeQuery, .listMetrics]

/-- The tool of a name. -/
def find? (r : Registry) (name : String) : Option Tool :=
  List.find? (fun t => t.name = name) r

/-- The text about a name that no tool has. -/
def unknownText (name : String) : String :=
  "no tool registered with name: " ++ name

end Registry

end DocWatch
