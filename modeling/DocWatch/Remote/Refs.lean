import DocWatch.Fault
import DocWatch.Table
import DocWatch.Text.Blank

/-!
# The refs of a remote repository

A listing has one line for each ref: the hash of a commit, a tab and the full
name of the ref. Blank lines are passed over. One line that is neither rejects
the whole listing, so that a complaint printed in its place is never read as a
remote without refs.
-/

namespace DocWatch

/-- Commit hashes by the full names of their refs. -/
abbrev Refs := Table String

namespace Refs

/-- Whether a character is a digit of base sixteen. -/
def isHexDigit (c : Char) : Bool :=
  ('0' ≤ c && c ≤ '9') || ('a' ≤ c && c ≤ 'f') || ('A' ≤ c && c ≤ 'F')

/-- Whether a text is the hash of a commit, of whatever length. -/
def isHash (s : List Char) : Bool :=
  !s.isEmpty && s.all isHexDigit

/-- The name and the hash on a line. -/
def ofLine (line : List Char) : Except ListingFault (String × String) :=
  match Text.splitOnce '\t' line with
  | none => .error (.lineWithoutTab (String.ofList line))
  | some (front, back) =>
      if isHash (Text.trim front) then
        .ok (String.ofList (Text.trim back), String.ofList (Text.trim front))
      else .error (.notAHash (String.ofList (Text.trim front)))

/-- The lines of a listing that are not blank. -/
def entryLines (listing : List Char) : List (List Char) :=
  (Text.lines listing).filter fun line => !line.all Text.isBlank

/-- Reads a listing. Of two lines with one name the later one counts. -/
def parse (listing : List Char) : Except ListingFault Refs := do
  let rows ← (entryLines listing).mapM ofLine
  return Table.ofList rows

/-- The full name of a branch. -/
def branchRef (branch : String) : String :=
  "refs/heads/" ++ branch

/-- The latest commit of a branch. A branch that the remote does not have is a
fault, never an absence of news. -/
def latest (refs : Refs) (branch : String) : Except Fault String :=
  match refs.get? (branchRef branch) with
  | some hash => .ok hash
  | none => .error (.refNotFound (branchRef branch))

theorem latest_eq_ok {refs : Refs} {branch hash : String} :
    latest refs branch = .ok hash ↔ refs.get? (branchRef branch) = some hash := by
  rw [latest]
  cases refs.get? (branchRef branch) <;> simp

end Refs

end DocWatch
