/-!
# Tables sorted by key

A finite map from strings, kept as rows in ascending order of key. Strings
compare by code point, which is also the order of their UTF-8 bytes. The tree
of extracted documents, the inverted index, the refs of a remote and the
members of a JSON object are all such tables, so that whatever lists one of
them lists it in the same order.
-/

namespace DocWatch

/-- A map from strings as rows; the operations keep the keys ascending and
distinct. -/
abbrev Table (α : Type) := List (String × α)

namespace Table

variable {α : Type}

/-- The value under a key. -/
def get? : Table α → String → Option α
  | [], _ => none
  | (k, v) :: rest, key => if key = k then some v else get? rest key

theorem get?_map {β : Type} (f : α → β) (t : Table α) (key : String) :
    get? (t.map fun (k, v) => (k, f v)) key = (get? t key).map f := by
  induction t with
  | nil => rfl
  | cons row rest ih =>
      obtain ⟨k, v⟩ := row
      rw [List.map_cons, get?, get?]
      split
      · rfl
      · exact ih

/-- Puts `f` of the value found under a key, or of nothing, under that key. -/
def alter (f : Option α → α) : Table α → String → Table α
  | [], key => [(key, f none)]
  | (k, v) :: rest, key =>
      if key < k then (key, f none) :: (k, v) :: rest
      else if key = k then (k, f (some v)) :: rest
      else (k, v) :: alter f rest key

/-- Puts a value under a key, in place of the one that was there. -/
def insert (t : Table α) (key : String) (v : α) : Table α :=
  alter (fun _ => v) t key

/-- The table of a list of rows; of two rows with one key the later one counts. -/
def ofList (rows : List (String × α)) : Table α :=
  rows.foldl (fun t (k, v) => insert t k v) []

/-- The keys in ascending order. -/
def keys (t : Table α) : List String :=
  t.map Prod.fst

end Table

end DocWatch
