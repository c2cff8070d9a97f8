import DocWatch.Index.Basic
import DocWatch.Index.Edit
import DocWatch.Index.Score
import DocWatch.Index.Snippet

/-!
# Searching the index

The terms of a query are matched against all terms of the index: equal, inside
or one edit apart. Every chunk with a matching term has a score, the best chunk
of a document stands for it, and the documents are listed from the highest
score down. A query without any term is looked for as plain text instead.
-/

namespace DocWatch

/-- A document found by a search. -/
structure Hit (R : Type) where
  path : String
  score : R
  chunk : String
  snippet : String

namespace Index

open Arithmetic Score

/-- The shortest query term that may be one edit away from a term. -/
def nearMinimum : Nat := 4

/-- How a query term matches a term of the index. -/
def matchTerm? (query term : String) : Option Match :=
  if term = query then some .exact
  else if Text.holds term query then some .inside
  else if nearMinimum ≤ query.length ∧ withinOneEdit query.toList term.toList then some .near
  else none

/-- The best match of a term of the index with any term of a query. -/
def bestMatch? (queries : List String) (term : String) : Option Match :=
  (queries.filterMap (matchTerm? · term)).foldl
    (fun found m => some (match found with | none => m | some b => b.best m)) none

variable {R : Type} [Arithmetic R]

/-- Scores of chunks, in order of ordinal. -/
abbrev Scores (R : Type) := List (Nat × R)

/-- Two lists of scores merged; a chunk in both has the sum. -/
def mergeScores : Scores R → Scores R → Scores R
  | [], bs => bs
  | as, [] => as
  | (i, x) :: as, (j, y) :: bs =>
      if i < j then (i, x) :: mergeScores as ((j, y) :: bs)
      else if j < i then (j, y) :: mergeScores ((i, x) :: as) bs
      else (i, Arithmetic.add x y) :: mergeScores as bs
termination_by as bs => as.length + bs.length

/-- What one term brings to the chunks that contain it. -/
def termScores (ix : Index) (m : Match) (postings : List Posting) : Scores R :=
  postings.map fun p =>
    (p.chunk, contribution m ix.chunkCount postings.length p.tf ix.totalLength
      ((ix.entries[p.chunk]?.map Entry.length).getD 0))

/-- The scores of the chunks for the terms of a query: the contributions of the
matching terms, added in order of term. -/
def termQueryScores (ix : Index) (queries : List String) : Scores R :=
  (ix.postings.filterMap fun (term, postings) =>
      (bestMatch? queries term).map fun m => termScores ix m postings).foldl mergeScores []

/-- The scores of the chunks for a query without terms: how often the trimmed
query occurs in the chunk, both in lower case. -/
def plainScores (ix : Index) (query : String) : Scores R :=
  let needle := Text.lower (Text.trim query.toList)
  if needle = [] then []
  else
    ix.entries.zipIdx.filterMap fun (e, i) =>
      let hits := Text.count needle (Text.lower e.passage.text.toList)
      if hits = 0 then none else some (i, ofNat hits)

/-- The better of the best chunk of a document so far and another chunk of it:
the higher score, and of equal scores the earlier chunk. -/
def better (next : Nat × R) (found : Option (Nat × R)) : Nat × R :=
  match found with
  | none => next
  | some best =>
      if less best.2 next.2 || (!less next.2 best.2 && next.1 < best.1) then next else best

/-- The best chunk of each document, by path. -/
def bestChunks (ix : Index) (scores : Scores R) : Table (Nat × R) :=
  scores.foldl
    (fun t s =>
      match ix.entries[s.1]? with
      | some e => t.alter (better s) e.passage.path
      | none => t)
    []

/-- Whether one document ranks before another: by score from the highest down,
then by path. -/
def ranksBefore (a b : String × Nat × R) : Bool :=
  less b.2.2 a.2.2 || (!less a.2.2 b.2.2 && a.1 ≤ b.1)

/-- The hit that a document and its best chunk make. -/
def toHit (ix : Index) (needles : List (List Char)) (found : String × Nat × R) : Option (Hit R) :=
  (ix.entries[found.2.1]?).map fun e =>
    ⟨found.1, found.2.2, e.passage.id, String.ofList (snippet e.passage.text.toList needles)⟩

/-- The documents that match a query, best first, at most `limit` of them. -/
def search (ix : Index) (query : String) (limit : Nat) : List (Hit R) :=
  let queries := (tokenize query).eraseDups
  let scores := if queries = [] then plainScores ix query else termQueryScores ix queries
  let needles :=
    if queries = [] then [Text.lowerAscii (Text.trim query.toList)] else queries.map String.toList
  (((bestChunks ix scores).mergeSort ranksBefore).take limit).filterMap (toHit ix needles)

end Index

end DocWatch
