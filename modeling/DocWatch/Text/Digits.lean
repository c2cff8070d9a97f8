/-!
# Digits at the front of a text

What the readers of numbers, dates and escapes share: the value of digits, and
taking a fixed piece off the front of a text.
-/

namespace DocWatch.Text

/-- The whole number that a run of decimal digits stands for. -/
def digitsValue (digits : List Char) : Nat :=
  digits.foldl (fun n c => n * 10 + (c.toNat - 48)) 0

/-- The value of a digit of base sixteen. -/
def hexDigit? (c : Char) : Option Nat :=
  if c.isDigit then some (c.toNat - 48)
  else if 'a' ≤ c ∧ c ≤ 'f' then some (c.toNat - 87)
  else if 'A' ≤ c ∧ c ≤ 'F' then some (c.toNat - 55)
  else none

/-- The value of exactly `n` digits of base sixteen, and the text behind them. -/
def hexDigits? (n : Nat) (s : List Char) : Option (Nat × List Char) :=
  match (s.take n).mapM hexDigit? with
  | some ds => if ds.length = n then some (ds.foldl (fun v d => v * 16 + d) 0, s.drop n) else none
  | none => none

/-- The value of exactly `n` decimal digits, and the text behind them. -/
def fixedDigits? (n : Nat) (s : List Char) : Option (Nat × List Char) :=
  let ds := s.take n
  if ds.length = n ∧ ds.all Char.isDigit then some (digitsValue ds, s.drop n) else none

/-- The text behind a given character. -/
def expect? (c : Char) : List Char → Option (List Char)
  | x :: rest => if x = c then some rest else none
  | [] => none

/-- The digits of a text, less one plus sign in front of them; nothing if there
is anything else. -/
def plainDigits? (s : List Char) : Option (List Char) :=
  let digits := match s with
    | '+' :: rest => rest
    | _ => s
  if digits ≠ [] ∧ digits.all Char.isDigit then some digits else none

end DocWatch.Text
