import DocWatch.Binary64.Basic
import DocWatch.Table

/-!
# JSON values

The answers of the server, the parameters of its tools and the replies of the
time-series database are JSON. A number keeps the form that later decides what
it may be used for: a whole number that fits 64 bits, or a floating-point one.
-/

namespace DocWatch

/-- A JSON number. -/
inductive Json.Number where
  /-- A whole number from `-2 ^ 63` to `2 ^ 64 - 1`. -/
  | whole (n : Int)
  /-- Any other number, written with the fewest digits that read back. -/
  | float (x : Binary64)

/-- A JSON value. The members of an object stand in the order of the text. -/
inductive Json where
  | null
  | bool (b : Bool)
  | number (n : Json.Number)
  | string (s : String)
  | array (items : List Json)
  | object (members : List (String × Json))

namespace Json

instance : Inhabited Json := ⟨.null⟩

/-- An object from its members, in ascending order of key. -/
def ofMembers (members : List (String × Json)) : Json :=
  .object (Table.ofList members)

/-- A whole number as a value. -/
def ofNat (n : Nat) : Json :=
  .number (.whole n)

/-- A list of texts as a value. -/
def ofStrings (items : List String) : Json :=
  .array (items.map .string)

/-- The member of an object under a key; of two members with one key the later
one counts. A member of anything else reads as null. -/
def member (v : Json) (key : String) : Json :=
  match v with
  | .object members => ((members.reverse.find? (·.1 = key)).map Prod.snd).getD .null
  | _ => .null

/-- The member of an object under a key, if it is there. -/
def member? (v : Json) (key : String) : Option Json :=
  match v with
  | .object members => (members.reverse.find? (·.1 = key)).map Prod.snd
  | _ => none

/-- The text of a string value. -/
def text? : Json → Option String
  | .string s => some s
  | _ => none

/-- A number that is written as a whole number and fits 64 bits with a sign. -/
def int64? : Json → Option Int
  | .number (.whole n) => if n < Nat.pow 2 63 then some n else none
  | _ => none

mutual

/-- The value with the members of every object in ascending order of key, and
with one member for each key. -/
def sorted : Json → Json
  | .array items => .array (sortedItems items)
  | .object members => .object (sortedMembers [] members)
  | v => v

/-- Each item of an array, sorted. -/
def sortedItems : List Json → List Json
  | [] => []
  | v :: rest => sorted v :: sortedItems rest

/-- The members of an object, sorted into a table. -/
def sortedMembers (seen : Table Json) : List (String × Json) → Table Json
  | [] => seen
  | (k, v) :: rest => sortedMembers (seen.insert k (sorted v)) rest

end

end Json

end DocWatch
