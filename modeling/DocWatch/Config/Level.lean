import DocWatch.Text.Digits

/-!
# Levels of the log

A level is named by a word, whatever its case, or by its number. No word at all
stands for errors only.
-/

namespace DocWatch.Config

/-- How much is logged, from nothing to everything. -/
inductive Level where
  | off
  | error
  | warn
  | info
  | debug
  | trace
  deriving DecidableEq, Repr

namespace Level

/-- The levels in the order of their numbers. -/
def all : List Level := [off, error, warn, info, debug, trace]

/-- The word for a level. -/
def word : Level → String
  | off => "off"
  | error => "error"
  | warn => "warn"
  | info => "info"
  | debug => "debug"
  | trace => "trace"

/-- The number of a level. -/
def rank (l : Level) : Nat :=
  all.idxOf l

/-- A level that is given by its number, with an optional plus sign. -/
def ofNumber? (s : List Char) : Option Level :=
  (Text.plainDigits? s).bind fun digits => all[Text.digitsValue digits]?

/-- A level that is given by its word. -/
def ofWord? (s : List Char) : Option Level :=
  if s = [] then some error
  else all.find? fun l => s.map Char.toLower = l.word.toList

/-- Reads a level. -/
def parse? (s : String) : Option Level :=
  (ofNumber? s.toList).orElse fun _ => ofWord? s.toList

/-- Whether records of one level are kept at another. -/
def keeps (atLevel record : Level) : Bool :=
  record.rank ≤ atLevel.rank

end Level

end DocWatch.Config
