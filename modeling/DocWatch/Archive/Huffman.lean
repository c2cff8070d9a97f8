import DocWatch.Total

/-!
# Prefix codes from code lengths

A DEFLATE stream names a code by the length of each symbol's codeword. The
codewords themselves follow: shorter ones first, and symbols of one length in
order.
-/

namespace DocWatch.Archive

/-- A code: how many codewords there are of each length from 1 to 15, and the
symbols in order of their codewords. -/
structure Code where
  counts : List Nat
  symbols : Array Nat

namespace Code

/-- The longest codeword. -/
def maxLength : Nat := 15

/-- The part of all words of sixteen bits that begin with a codeword. It is
exactly all of them for a code in which every word can be read. -/
def coverage (counts : List Nat) : Nat :=
  total (counts.zipIdx.map fun (count, i) => count * Nat.pow 2 (maxLength - i))

/-- The code of a list of lengths, where zero stands for a symbol that is not
used. The codewords must cover everything; only where at most one symbol is
used, and `lenient` allows it, may words be left that cannot be read. -/
def ofLengths? (lenient : Bool) (lengths : List Nat) : Option Code :=
  let counts := (List.range maxLength).map fun i => lengths.count (i + 1)
  let symbols := (List.range maxLength).flatMap fun i =>
    (lengths.zipIdx.filter fun (l, _) => l = i + 1).map Prod.snd
  if coverage counts = Nat.pow 2 16 ∨ (lenient ∧ symbols.length ≤ 1) then
    some ⟨counts, symbols.toArray⟩
  else none

/-- What reading a codeword can come to. -/
inductive Reading where
  /-- A symbol, and the position behind its codeword. -/
  | symbol (s : Nat) (position : Nat)
  /-- The bits ran out first. -/
  | exhausted
  /-- No codeword begins like this; the position is behind the bits looked at. -/
  | invalid (position : Nat)

/-- Reads a codeword bit by bit. `first` is the first codeword of the length at
hand and `index` the place of its symbol. -/
def readFrom (code : Code) (bit : Nat → Option Nat) : List Nat → Nat → Nat → Nat → Nat → Reading
  | [], _, _, _, position => .invalid position
  | count :: longer, word, first, index, position =>
      match bit position with
      | none => .exhausted
      | some b =>
          let word := 2 * word + b
          if word < first + count then
            .symbol (code.symbols.getD (index + (word - first)) 0) (position + 1)
          else readFrom code bit longer word (2 * (first + count)) (index + count) (position + 1)

/-- Reads the codeword at a position. -/
def read (code : Code) (bit : Nat → Option Nat) (position : Nat) : Reading :=
  readFrom code bit code.counts 0 0 0 position

end Code

end DocWatch.Archive
