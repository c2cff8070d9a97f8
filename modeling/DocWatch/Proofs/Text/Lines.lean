import DocWatch.Text.Blank

/-!
# Lines that are printed and read

A text that is printed line by line falls into the same lines again, whichever of the
two ends each line was given: a line holds no line feed, and it must not end in a
carriage return of its own, which would be taken for a part of its end.
-/

namespace DocWatch.Text

/-- The ends of a line. -/
inductive LineEnd where
  | feed
  | returnFeed
  deriving DecidableEq, Repr

/-- An end of a line as it is printed. -/
def LineEnd.text : LineEnd → List Char
  | .feed => ['\n']
  | .returnFeed => ['\r', '\n']

variable {c : Char} {line : List Char}

theorem dropLast_of_ne (h : line.getLast? ≠ some c) : dropLast c line = line := by
  rw [dropLast, if_neg h]

theorem dropLast_concat : dropLast c (line ++ [c]) = line := by
  rw [dropLast, List.getLast?_concat, if_pos rfl, List.dropLast_concat]

theorem lines_feed (h : '\n' ∉ line) (rest : List Char) :
    lines (line ++ '\n' :: rest) = dropLast '\r' line :: lines rest := by
  have hfree : ∀ c ∈ line, (c == '\n') = false := by
    intro c hc
    rw [beq_eq_false_iff_ne]
    rintro rfl
    exact h hc
  have hpieces : splitBy (· == '\n') (line ++ '\n' :: rest) =
      line :: splitBy (· == '\n') rest := by
    rw [splitBy_break rfl, splitBy_of_free hfree]
    rfl
  obtain ⟨piece, more, hrest⟩ : ∃ piece more, splitBy (· == '\n') rest = piece :: more := by
    rw [splitBy_eq_splitOnP]
    exact List.exists_cons_of_ne_nil (List.splitOnP_ne_nil _ _)
  rw [lines, lines, hpieces, hrest, List.dropLast_cons_cons, List.map_cons,
    List.getLast?_cons_cons]
  cases (piece :: more).getLast? with
  | none => rfl
  | some last => cases last <;> rfl

theorem lines_line (hfeed : '\n' ∉ line) (hreturn : line.getLast? ≠ some '\r')
    (ending : LineEnd) (rest : List Char) :
    lines (line ++ ending.text ++ rest) = line :: lines rest := by
  cases ending with
  | feed =>
      rw [List.append_assoc]
      exact (lines_feed hfeed rest).trans (by rw [dropLast_of_ne hreturn])
  | returnFeed =>
      have hline : '\n' ∉ line ++ ['\r'] := by
        rw [List.mem_append]
        exact fun h => h.elim hfeed (by decide)
      have hsplit : line ++ LineEnd.returnFeed.text ++ rest = (line ++ ['\r']) ++ '\n' :: rest := by
        simp [LineEnd.text]
      rw [hsplit, lines_feed hline, dropLast_concat]

/-- What is printed line by line is read line by line. -/
theorem lines_printed {α : Type} {row : α → List Char} (ending : α → LineEnd) (rows : List α)
    (h : ∀ r ∈ rows, '\n' ∉ row r ∧ (row r).getLast? ≠ some '\r') :
    lines (rows.flatMap fun r => row r ++ (ending r).text) = rows.map row := by
  induction rows with
  | nil => rfl
  | cons r rest ih =>
      obtain ⟨hfeed, hreturn⟩ := h r List.mem_cons_self
      rw [List.flatMap_cons, lines_line hfeed hreturn, List.map_cons,
        ih fun r hr => h r (List.mem_cons_of_mem _ hr)]

end DocWatch.Text
