/-!
# Finding one text in another

Occurrences of a needle in a list of characters: whether there is one, where
the first one starts, and how many there are when none may overlap another.
-/

namespace DocWatch.Text

/-- The rest of a list after a given beginning. -/
def stripFront? {α : Type} [DecidableEq α] : List α → List α → Option (List α)
  | [], s => some s
  | _ :: _, [] => none
  | n :: needle, c :: s => if n = c then stripFront? needle s else none

theorem stripFront?_eq_some_iff {α : Type} [DecidableEq α] {needle s rest : List α} :
    stripFront? needle s = some rest ↔ s = needle ++ rest := by
  induction needle generalizing s with
  | nil => simp [stripFront?]
  | cons n needle ih =>
      cases s with
      | nil => simp [stripFront?]
      | cons c s =>
          rw [stripFront?]
          split
          · rename_i h
            subst h
            simp [ih]
          · rename_i h
            simp only [reduceCtorEq, List.cons_append, List.cons.injEq, false_iff]
            exact fun hs => h hs.1.symm

/-- Whether the list starts with the needle. -/
def startsWith {α : Type} [DecidableEq α] (needle s : List α) : Bool :=
  (stripFront? needle s).isSome

/-- The number of elements before the first occurrence of the needle. -/
def firstIndex? {α : Type} [DecidableEq α] (needle : List α) : List α → Option Nat
  | [] => if needle = [] then some 0 else none
  | c :: rest =>
      if startsWith needle (c :: rest) then some 0
      else (firstIndex? needle rest).map (· + 1)

/-- Whether the needle occurs in the list. -/
def occurs {α : Type} [DecidableEq α] (needle s : List α) : Bool :=
  (firstIndex? needle s).isSome

/-- How often the needle occurs when each search goes on behind the occurrence
before it: `skip` elements still belong to that one. -/
def countFrom {α : Type} [DecidableEq α] (needle : List α) : Nat → List α → Nat
  | _, [] => 0
  | skip + 1, _ :: rest => countFrom needle skip rest
  | 0, c :: rest =>
      if startsWith needle (c :: rest) then 1 + countFrom needle (needle.length - 1) rest
      else countFrom needle 0 rest

/-- The number of occurrences of a needle that do not overlap, counted from the
front. -/
def count {α : Type} [DecidableEq α] (needle s : List α) : Nat :=
  countFrom needle 0 s

/-- Whether a string holds another one. -/
def holds (s needle : String) : Bool :=
  occurs needle.toList s.toList

end DocWatch.Text
