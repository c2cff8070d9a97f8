import DocWatch.Binary64.Basic
import DocWatch.Table

/-!
# TOML values

The configuration is written in TOML 1.0. A table remembers how it came about,
because that decides who may still add to it: a table with a header is written
once, a table that a longer header or a dotted key only passes through may be
completed later, and an inline table is closed.
-/

namespace DocWatch

/-- How a table came about. -/
inductive Toml.Origin where
  /-- It has a header of its own. -/
  | header
  /-- The header of a table below it passes through it. -/
  | passed
  /-- A dotted key passes through it. -/
  | dotted
  /-- It is written between braces. -/
  | inline
  deriving DecidableEq, Repr

/-- A TOML value. -/
inductive Toml where
  | string (s : String)
  | integer (n : Int)
  | float (x : Binary64)
  | boolean (b : Bool)
  | dateTime (text : String)
  | array (items : List Toml)
  | table (origin : Toml.Origin) (rows : List (String × Toml))
  /-- The tables of an array of tables, the last one first. -/
  | tables (newestFirst : List (List (String × Toml)))

namespace Toml

/-- The rows of a table. -/
abbrev Rows := Table Toml

/-- Changes the rows at a path of keys, which is made where it does not exist
yet. A path of a dotted key must not lead through a table with a header, no
path leads through other values, and through an array of tables it leads into
the table written last. -/
def changeAt? (dotted : Bool) (change : Origin → Rows → Option Rows) :
    List String → Origin → Rows → Option Rows
  | [], origin, rows => change origin rows
  | key :: path, _, rows =>
      match rows.get? key with
      | none =>
          let origin := if dotted then Origin.dotted else .passed
          (changeAt? dotted change path origin []).map fun sub =>
            rows.insert key (.table origin sub)
      | some (.table origin sub) =>
          if origin = .inline ∨ (dotted ∧ origin = .header) then none
          else
            (changeAt? dotted change path origin sub).map fun sub =>
              rows.insert key (.table origin sub)
      | some (.tables (newest :: earlier)) =>
          (changeAt? dotted change path .header newest).map fun sub =>
            rows.insert key (.tables (sub :: earlier))
      | some _ => none

/-- Puts a value under a dotted key, which must be new. -/
def insertAt? (path : List String) (key : String) (v : Toml) (origin : Origin) (rows : Rows) :
    Option Rows :=
  changeAt? true (fun origin rows =>
    if path ≠ [] ∧ origin ≠ .dotted then none
    else
      match rows.get? key with
      | some _ => none
      | none => some (rows.insert key v)) path origin rows

/-- Opens a table with a header: a new one, or one that so far was only passed
through. -/
def openTable? (path : List String) (key : String) (rows : Rows) : Option Rows :=
  changeAt? false (fun _ rows =>
    match rows.get? key with
    | none => some (rows.insert key (.table .header []))
    | some (.table .passed sub) => some (rows.insert key (.table .header sub))
    | some _ => none) path .header rows

/-- Opens a further table of an array of tables. -/
def openTables? (path : List String) (key : String) (rows : Rows) : Option Rows :=
  changeAt? false (fun _ rows =>
    match rows.get? key with
    | none => some (rows.insert key (.tables [[]]))
    | some (.tables earlier) => some (rows.insert key (.tables ([] :: earlier)))
    | some _ => none) path .header rows

/-- The table of the pairs between two braces. -/
def inline? (pairs : List (List String × Toml)) : Option Toml :=
  let put (rows : Rows) (pair : List String × Toml) : Option Rows :=
    pair.1.getLast?.bind fun key => insertAt? pair.1.dropLast key pair.2 .inline rows
  (pairs.foldlM put []).map (.table .inline)

end Toml

end DocWatch
