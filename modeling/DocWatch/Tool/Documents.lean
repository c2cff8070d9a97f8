import DocWatch.Tool.Basic

/-!
# The tools for the documents

Four tools list, read and search the published documents, and bring them up to
date. The first three answer from the published value alone.
-/

namespace DocWatch.Tool

/-- Says what there is to read. -/
def docsList : Tool where
  name := "docs_list"
  description := "List the paths of all available Prometheus documentation files"
  readOnly := true
  schema := objectSchema [] []
  plan _ published _ :=
    .result (.ofMembers
      [("commit", .string published.commit),
       ("published_at", match published.publishedAt with
         | some t => .string t.text
         | none => .null),
       ("count", .ofNat published.snapshot.size),
       ("files", .ofStrings published.snapshot.fileNames)])

/-- The path that is meant by a text: slashes at its front do not count. -/
def documentPath (file : String) : String :=
  String.ofList (file.toList.dropWhile (· == '/'))

/-- Gives out one document. -/
def docsRead : Tool where
  name := "docs_read"
  description := "Read a Prometheus documentation file by path (as returned by docs_list)"
  readOnly := true
  schema :=
    objectSchema [("file", property "string" "Document path, e.g. querying/basics.md" [])] ["file"]
  plan params published _ :=
    match requiredText params "file" with
    | .error fault => .fail fault
    | .ok text =>
        let path := documentPath text
        match published.snapshot.file? path with
        | some content =>
            .result (.ofMembers [("file", .string path), ("content", .string content)])
        | none => .fail (.noDocument path)

/-- How many results a search gives unless it is told otherwise. -/
def defaultSearchLimit : Nat := 10

/-- How many results a search gives at most. -/
def maxSearchLimit : Nat := 100

/-- The number of results that a search may give. Anything but a whole number
that fits 64 bits counts as not given. -/
def searchLimit (params : Json) : Except ToolFault Nat :=
  match (params.member "limit").int64? with
  | none => .ok defaultSearchLimit
  | some n => if 1 ≤ n then .ok (min n.toNat maxSearchLimit) else .error .limitTooSmall

/-- A result of a search as a value. -/
def hitJson (h : Hit Float) : Json :=
  .ofMembers
    [("path", .string h.path),
     ("score", .number (.float (.ofFloat h.score))),
     ("chunk", .string h.chunk),
     ("snippet", .string h.snippet)]

/-- Finds the documents that match a query best, by some way of searching. -/
def searchBy (search : Snapshot → String → Nat → List (Hit Float)) : Tool where
  name := "docs_search"
  description := "Search the Prometheus documentation and return the best matching files"
  readOnly := true
  schema :=
    objectSchema
      [("query", property "string" "Search terms" []),
       ("limit", property "integer" "Maximum number of files to return"
         [("default", .ofNat defaultSearchLimit), ("minimum", .ofNat 1),
          ("maximum", .ofNat maxSearchLimit)])]
      ["query"]
  plan params published _ :=
    match requiredText params "query" with
    | .error fault => .fail fault
    | .ok query =>
        match searchLimit params with
        | .error fault => .fail fault
        | .ok limit =>
            .result (.ofMembers
              [("query", .string query),
               ("commit", .string published.commit),
               ("results", .array ((search published.snapshot query limit).map hitJson))])

/-- Searches with what a score is made of added in order of term. -/
def docsSearch : Tool :=
  searchBy Snapshot.search

/-- Brings the documents up to date. -/
def docsRefresh : Tool where
  name := "docs_refresh"
  description := "Check upstream for newer Prometheus documentation and apply it"
  readOnly := false
  schema := objectSchema [] []
  plan _ _ _ := .refresh

end DocWatch.Tool
