import DocWatch.Text.Alphanumeric
import DocWatch.Text.Blank
import DocWatch.Text.Lowercase

/-!
# Index terms

A term is a run of letters, digits, `_` and `:` with the colons trimmed from
both ends, in lower case. So `rate:` and `rate` are one term, while the name of
a recording rule such as `job:http_requests:rate5m` stays whole.
-/

namespace DocWatch

/-- Whether a character may stand in a term. -/
def isTermChar (c : Char) : Bool :=
  Text.isAlphanumeric c || c = '_' || c = ':'

/-- The terms of a text as they are spelled in it, in order. -/
def spelledTerms (text : List Char) : List (List Char) :=
  ((Text.splitBy (fun c => !isTermChar c) text).map (Text.trimBy (· = ':'))).filter (· ≠ [])

/-- The terms of a text in order, in lower case. -/
def terms (text : List Char) : List (List Char) :=
  (spelledTerms text).map Text.lower

/-- The terms of a string in order, in lower case. -/
def tokenize (text : String) : List String :=
  (terms text.toList).map String.ofList

end DocWatch
