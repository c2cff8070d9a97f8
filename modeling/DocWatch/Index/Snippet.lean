import DocWatch.Chunk.Paragraph
import DocWatch.Text.Lowercase
import DocWatch.Text.Occurrence

/-!
# Snippets

A hit shows a window of its chunk: 240 bytes that begin 80 bytes before the
first place where one of the needles occurs, snapped back to whole characters,
trimmed, with dots where text was left out.
-/

namespace DocWatch

/-- The bytes of text that a snippet shows. -/
def snippetBytes : Nat := 240

/-- The place of the first occurrence of any needle, ASCII letters compared
without case; the front of the text where none occurs. -/
def firstMatch (text : List Char) (needles : List (List Char)) : Nat :=
  let places := (needles.filter (· ≠ [])).filterMap (Text.firstIndex? · (Text.lowerAscii text))
  places.min?.getD 0

/-- The window of a text around the first occurrence of a needle. -/
def snippet (text : List Char) (needles : List (List Char)) : List Char :=
  let found := Text.byteLength (text.take (firstMatch text needles))
  let (front, rest) := takeBytes (found - snippetBytes / 3) text
  let (window, back) := takeBytes snippetBytes rest
  let dots := ['.', '.', '.']
  (if front = [] then [] else dots) ++ Text.trim window ++ (if back = [] then [] else dots)

end DocWatch
