import DocWatch.Archive.Feed
import DocWatch.Net.Transport
import DocWatch.Text.Blank
import DocWatch.Text.Utf8

/-!
# Downloading the archive

The body of the archive is passed on part by part and never held as a whole. A
count runs along, so that no more bytes than allowed come through, whatever
length the answer declared and however long the reader goes on after a failure.
-/

namespace DocWatch.Download

/-- Passes on a body of which `seen` bytes went before: the part that would
exceed the limit, and all data behind it, are failures. -/
def boundedFrom (limit seen : Nat) : List Net.Part → Archive.Feed
  | [] => []
  | .data bytes :: rest =>
      (if seen + bytes.length ≤ limit then .data bytes
        else .failure (.abort (.tooLarge limit))) ::
        boundedFrom limit (seen + bytes.length) rest
  | .failed f :: rest =>
      .failure (.abort (.transport f.text)) :: boundedFrom limit seen rest

/-- Passes on a body of at most `limit` bytes. -/
def bounded (limit : Nat) (body : List Net.Part) : Archive.Feed :=
  boundedFrom limit 0 body

/-- How many bytes of a refusal are quoted. -/
def refusalLimit : Nat := 512

/-- What a refusal says: the beginning of its body. -/
def refusal (body : List Net.Part) : String :=
  String.ofList (Text.trim (Text.decodeLossy ((Net.arrived body).take refusalLimit)))

/-- The body of the archive in an answer. -/
def ofResponse (limit : Nat) (r : Net.Response) : Except Fault Archive.Feed :=
  if !r.isSuccess then .error (.download (some r.status) (refusal r.body))
  else
    match r.declaredLength with
    | some length =>
        if limit < length then .error (.sizeLimit (.declared length limit))
        else .ok (bounded limit r.body)
    | none => .ok (bounded limit r.body)

/-- The body of the archive as an exchange brings it. -/
def ofExchange (limit : Nat) : Net.Exchange → Except Fault Archive.Feed
  | .failed f => .error (.download none f.text)
  | .answered r => ofResponse limit r

/-- Asks for the archive, unless the token has been cancelled before. -/
def fetch (t : Net.Transport) (limit : Nat) (cancelled : Bool) (r : Net.Request) :
    Except Fault Archive.Feed :=
  if cancelled then .error .cancelled else ofExchange limit (t r)

end DocWatch.Download
