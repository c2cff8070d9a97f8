import DocWatch.Mcp.Resource
import DocWatch.Proofs.Index.Hashed
import DocWatch.Server.Http

/-!
# Requests for documents, access by access

A request that only reads is described elsewhere by what it comes to for one published
value. A reader does not have all of that value in its hands at once: it takes a
reference to what is published, and reads one part after another through the reference,
while others may put a new value in place. `Program` spells this out, and each request
for documents has a program with the accesses that it makes.

A program that took a reference twice could join parts of two values. `Whole` says that
this does not happen: there is one reference at most, all parts are read through it, and
they are joined to just the answer that the request has by the other description.

A score is a sum of floating-point numbers, so its last digits depend on the order in which
they are added. A search is therefore there twice: as it runs through the sorted index, and
with an order of its own for every loop over a map.
-/

namespace DocWatch.Readers

/-- What a reader does. -/
inductive Program (α : Type) where
  | done (answer : α)
  /-- It takes a reference to what is published. -/
  | take (next : Nat → Program α)
  /-- It looks at what a reference refers to. -/
  | look (reference : Nat) (next : Published → Program α)

namespace Program

variable {α β : Type}

/-- One program and then another. -/
def bind : Program α → (α → Program β) → Program β
  | .done x, f => f x
  | .take next, f => .take fun reference => (next reference).bind f
  | .look reference next, f => .look reference fun p => (next p).bind f

instance : Monad Program where
  pure := .done
  bind := bind

/-- Takes a reference to what is published. -/
def current : Program Nat :=
  .take .done

/-- Reads one part of what a reference refers to. -/
def part (reference : Nat) (f : Published → α) : Program α :=
  .look reference fun p => .done (f p)

end Program

/-- What a request is answered with. -/
inductive Answer where
  | call (outcome : CallOutcome)
  | http (response : Server.HttpResponse)
  | resource (result : Except Mcp.RequestFault Mcp.ResourceText)

/-- A search in a snapshot whose loops over maps go in orders of their own. -/
def searchIn (orders : Index.Traversals Float) (s : Snapshot) (query : String) (limit : Nat) :
    List (Hit Float) :=
  Index.Hashed.search orders s.index query limit

/-- A request that reads documents. -/
inductive Request where
  | docsList (params : Json)
  | docsRead (params : Json)
  | docsSearch (params : Json)
  /-- The same, but the loops over maps in it go in orders of their own. -/
  | docsSearchIn (orders : Index.Traversals Float) (params : Json)
  | health
  | resource (uri : String)

namespace Request

open Program

/-- What a call of a tool comes to if nothing happens meanwhile. -/
def outcome (s : Service) (tool : Tool) (params : Json) : CallOutcome :=
  (s.perform (tool.plan params s.published s.updates.clock)).1

/-- The answer to a request if nothing happens meanwhile. -/
def answer (s : Service) : Request → Answer
  | .docsList params => .call (outcome s Tool.docsList params)
  | .docsRead params => .call (outcome s Tool.docsRead params)
  | .docsSearch params => .call (outcome s Tool.docsSearch params)
  | .docsSearchIn orders params => .call (outcome s (Tool.searchBy (searchIn orders)) params)
  | .health => .http (Server.healthResponse s)
  | .resource uri => .resource (Mcp.readResource s.published uri)

/-- Lists the documents. -/
def listProgram : Program Answer := do
  let docs ← current
  let files ← part docs fun p => p.snapshot.fileNames
  let commit ← part docs Published.commit
  let publishedAt ← part docs Published.publishedAt
  return .call (.value (.ofMembers
    [("commit", .string commit),
     ("published_at", match publishedAt with
       | some t => .string t.text
       | none => .null),
     ("count", .ofNat files.length),
     ("files", .ofStrings files)]))

/-- Reads a document. -/
def readProgram (params : Json) : Program Answer :=
  match Tool.requiredText params "file" with
  | .error fault => return .call (.fault fault)
  | .ok text => do
      let path := Tool.documentPath text
      let docs ← current
      let content ← part docs fun p => p.snapshot.file? path
      match content with
      | some content =>
          return .call (.value (.ofMembers [("file", .string path), ("content", .string content)]))
      | none => return .call (.fault (.noDocument path))

/-- Searches the documents in some way. -/
def searchProgram (search : Snapshot → String → Nat → List (Hit Float)) (params : Json) :
    Program Answer :=
  match Tool.requiredText params "query" with
  | .error fault => return .call (.fault fault)
  | .ok query =>
      match Tool.searchLimit params with
      | .error fault => return .call (.fault fault)
      | .ok limit => do
          let docs ← current
          let hits ← part docs fun p => search p.snapshot query limit
          let commit ← part docs Published.commit
          return .call (.value (.ofMembers
            [("query", .string query),
             ("commit", .string commit),
             ("results", .array (hits.map Tool.hitJson))]))

/-- Says how the server is. -/
def healthProgram : Program Answer := do
  let docs ← current
  let commit ← part docs Published.commit
  let files ← part docs fun p => p.snapshot.size
  return .http (.json 200 (.ofMembers
    [("status", .string "ok"), ("version", .string version),
     ("docs_commit", .string commit), ("docs_files", .ofNat files)]))

/-- Reads a resource. -/
def resourceProgram (uri : String) : Program Answer :=
  match Net.Url.parse uri with
  | .error fault => return .resource (.error (.invalidUri uri fault))
  | .ok url =>
      if url.scheme ≠ Mcp.resourceScheme ∨ url.host ≠ some Mcp.resourceHost then
        return .resource (.error (.unknownResource uri))
      else do
        let docs ← current
        if Mcp.filePart url.path = [] then
          if url.path = ['/'] then return .resource (.error .missingFileName)
          else do
            let names ← part docs fun p => p.snapshot.fileNames
            return .resource (.ok ⟨uri, "text/plain", "\n".intercalate names⟩)
        else do
          let path := String.ofList (Mcp.filePart url.path)
          let content ← part docs fun p => p.snapshot.file? path
          match content with
          | some text => return .resource (.ok ⟨uri, "text/markdown", text⟩)
          | none => return .resource (.error (.noDocument path))

/-- What a reader with a request does. -/
def program : Request → Program Answer
  | .docsList _ => listProgram
  | .docsRead params => readProgram params
  | .docsSearch params => searchProgram Snapshot.search params
  | .docsSearchIn orders params => searchProgram (searchIn orders) params
  | .health => healthProgram
  | .resource uri => resourceProgram uri

end Request

namespace Program

variable {α : Type}

/-- All that is left to do goes through one reference, and comes to `x` if the reference
refers to `p`. -/
def Through (reference : Nat) (p : Published) (x : α) : Program α → Prop
  | .done y => y = x
  | .take _ => False
  | .look r next => r = reference ∧ Through reference p x (next p)

/-- Whatever is published when a program takes its one reference, it comes to what `f`
makes of that. -/
def Whole (f : Service → α) : Program α → Prop
  | .done x => ∀ s, x = f s
  | .take next => ∀ reference s, Through reference s.published (f s) (next reference)
  | .look _ _ => False

end Program

open Program

theorem length_fileNames (s : Snapshot) : s.fileNames.length = s.size := by
  rw [Snapshot.fileNames, Table.keys, List.length_map, Snapshot.size]

theorem whole_listProgram (params : Json) :
    Request.listProgram.Whole fun s => (Request.docsList params).answer s := by
  intro docs s
  refine ⟨rfl, rfl, rfl, ?_⟩
  dsimp only
  rw [length_fileNames]
  rfl

theorem whole_readProgram (params : Json) :
    (Request.readProgram params).Whole fun s => (Request.docsRead params).answer s := by
  simp only [Request.readProgram, Request.answer, Request.outcome, Tool.docsRead]
  cases Tool.requiredText params "file" with
  | error fault => exact fun s => rfl
  | ok text =>
      intro docs s
      refine ⟨rfl, ?_⟩
      dsimp only
      cases s.published.snapshot.file? (Tool.documentPath text) with
      | none => rfl
      | some content => rfl

theorem whole_searchProgram (search : Snapshot → String → Nat → List (Hit Float))
    (params : Json) : (Request.searchProgram search params).Whole fun s =>
      .call (Request.outcome s (Tool.searchBy search) params) := by
  simp only [Request.searchProgram, Request.outcome, Tool.searchBy]
  cases Tool.requiredText params "query" with
  | error fault => exact fun s => rfl
  | ok query =>
      cases Tool.searchLimit params with
      | error fault => exact fun s => rfl
      | ok limit => exact fun docs s => ⟨rfl, rfl, rfl⟩

theorem whole_healthProgram :
    Request.healthProgram.Whole fun s => Request.health.answer s :=
  fun _ _ => ⟨rfl, rfl, rfl⟩

theorem whole_resourceProgram (uri : String) :
    (Request.resourceProgram uri).Whole fun s => (Request.resource uri).answer s := by
  simp only [Request.resourceProgram, Request.answer, Mcp.readResource]
  cases Net.Url.parse uri with
  | error fault => exact fun s => rfl
  | ok url =>
      simp only [Mcp.readAt]
      by_cases hunknown : url.scheme ≠ Mcp.resourceScheme ∨ url.host ≠ some Mcp.resourceHost
      · simp only [if_pos hunknown]
        exact fun s => rfl
      · simp only [if_neg hunknown]
        intro docs s
        by_cases hlist : Mcp.filePart url.path = []
        · by_cases hslash : url.path = ['/']
          · simp only [if_pos hlist, if_pos hslash]
            rfl
          · simp only [if_pos hlist, if_neg hslash]
            exact ⟨rfl, rfl⟩
        · simp only [if_neg hlist]
          refine ⟨rfl, ?_⟩
          dsimp only
          cases s.published.snapshot.file? (String.ofList (Mcp.filePart url.path)) with
          | none => rfl
          | some text => rfl

/-- Every request takes what is published once at most, and its answer is the one that the
request has for that. -/
theorem Request.whole_program (r : Request) : r.program.Whole fun s => r.answer s := by
  cases r with
  | docsList params => exact whole_listProgram params
  | docsRead params => exact whole_readProgram params
  | docsSearch params => exact whole_searchProgram Snapshot.search params
  | docsSearchIn orders params => exact whole_searchProgram (searchIn orders) params
  | health => exact whole_healthProgram
  | resource uri => exact whole_resourceProgram uri

end DocWatch.Readers
