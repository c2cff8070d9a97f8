import DocWatch.Chunk.Segment

/-!
# How paragraphs are laid out in segments

Segments are made in one pass over the paragraphs with a segment that may still
grow, and every property of chunks would have to follow that segment through the
pass. `Laid` says once and for all what comes out of it, with no growing segment
left: a paragraph beyond the limit stands alone, cut into pieces, and any other
begins a segment that takes up the plain paragraphs behind it for as long as they
fit. What holds of chunks is then shown by an induction over the layout.
-/

namespace DocWatch

/-- Paragraphs in a row, each set off from the one before by a blank line. -/
def joined (para : List Char) (more : List (List Char)) : List Char :=
  para ++ more.flatMap fun next => '\n' :: '\n' :: next

@[simp] theorem joined_nil (para : List Char) : joined para [] = para := by
  simp [joined]

theorem joined_concat (para next : List Char) (more : List (List Char)) :
    joined para (more ++ [next]) = joined para more ++ '\n' :: '\n' :: next := by
  simp [joined]

theorem isInfix_joined {para next : List Char} {more : List (List Char)} (h : next ∈ para :: more) :
    next <:+: joined para more := by
  rcases List.mem_cons.1 h with rfl | h
  · exact (List.prefix_append _ _).isInfix
  · obtain ⟨x, y, rfl⟩ := List.append_of_mem h
    refine ⟨joined para x ++ ['\n', '\n'], y.flatMap fun p => '\n' :: '\n' :: p, ?_⟩
    simp [joined]

/-- The segments of paragraphs under a heading. -/
inductive Laid (limit : Nat) : Option (List Char) → List (List Char) → List Segment → Prop
  | nil {heading : Option (List Char)} : Laid limit heading [] []
  | cut {heading : Option (List Char)} {para : List Char} {rest : List (List Char)}
      {behind : List Segment}
      (long : limit < Text.byteLength para)
      (laid : Laid limit ((titleOf? para).or heading) rest behind) :
      Laid limit heading (para :: rest)
        ((cutPieces limit para).map (Segment.mk ((titleOf? para).or heading)) ++ behind)
  | joined {heading : Option (List Char)} {para : List Char} {more rest : List (List Char)}
      {behind : List Segment}
      (plain : ∀ next ∈ more, titleOf? next = none)
      (fits : Text.byteLength (joined para more) ≤ limit)
      -- the paragraph behind the segment, if there is one, cannot be taken up
      (full : ∀ next ∈ rest.head?, titleOf? next ≠ none ∨
        limit < Text.byteLength (joined para more) + 2 + Text.byteLength next)
      (laid : Laid limit ((titleOf? para).or heading) rest behind) :
      Laid limit heading (para :: (more ++ rest))
        (⟨(titleOf? para).or heading, joined para more⟩ :: behind)

variable {limit : Nat} {heading : Option (List Char)} {para : List Char}
  {more rest : List (List Char)}

theorem byteLength_joined_concat (para next : List Char) (more : List (List Char)) :
    Text.byteLength (joined para (more ++ [next])) =
      Text.byteLength (joined para more) + 2 + Text.byteLength next := by
  have hbreak : Text.byteLength ('\n' :: '\n' :: next) = 2 + Text.byteLength next := by
    rw [Text.byteLength_cons, Text.byteLength_cons]
    show 1 + (1 + Text.byteLength next) = 2 + Text.byteLength next
    omega
  rw [joined_concat, Text.byteLength_append, hbreak, Nat.add_assoc]

/-! ## The pass over the paragraphs

A step either takes the paragraph up into the growing segment, or it closes the
segment and goes on as if there had been none. -/

theorem segmentsFrom_long (h : limit < Text.byteLength para) :
    segmentsFrom limit heading none (para :: rest) =
      (cutPieces limit para).map (Segment.mk ((titleOf? para).or heading)) ++
        segmentsFrom limit ((titleOf? para).or heading) none rest := by
  simp [segmentsFrom, h]

theorem segmentsFrom_short (h : Text.byteLength para ≤ limit) :
    segmentsFrom limit heading none (para :: rest) =
      segmentsFrom limit ((titleOf? para).or heading)
        (some ⟨(titleOf? para).or heading, para⟩) rest := by
  simp [segmentsFrom, Nat.not_lt.2 h]

theorem segmentsFrom_taken {s : Segment} (hplain : titleOf? para = none)
    (hfits : Text.byteLength s.text + 2 + Text.byteLength para ≤ limit) :
    segmentsFrom limit heading (some s) (para :: rest) =
      segmentsFrom limit heading (some ⟨s.heading, s.text ++ '\n' :: '\n' :: para⟩) rest := by
  have hshort : ¬ limit < Text.byteLength para := by omega
  simp [segmentsFrom, Option.filter, hplain, hfits, hshort]

theorem segmentsFrom_closed {s : Segment} (hfull : titleOf? para ≠ none ∨
      limit < Text.byteLength s.text + 2 + Text.byteLength para) :
    segmentsFrom limit heading (some s) (para :: rest) =
      s :: segmentsFrom limit heading none (para :: rest) := by
  have hkept : (some s).filter (fun s => (titleOf? para).isNone &&
      decide (Text.byteLength s.text + 2 + Text.byteLength para ≤ limit)) = none := by
    rcases hfull with htitle | hlong
    · simp [Option.filter, Option.isNone_eq_false_iff.2 (Option.isSome_iff_ne_none.2 htitle)]
    · simp [Option.filter, Nat.not_le.2 hlong]
  simp only [segmentsFrom, hkept]
  by_cases hlong : limit < Text.byteLength para <;> simp [hlong]

/-- Both halves of the pass at once, since each step may change over from one to the
other. While a segment grows, `para` has opened it under `heading` and `more` has
been taken up; none of `more` has a title, so the heading in force is still that of
the segment. -/
theorem laid_pass (limit : Nat) (paras : List (List Char)) :
    (∀ heading, Laid limit heading paras (segmentsFrom limit heading none paras)) ∧
    ∀ heading para more, (∀ next ∈ more, titleOf? next = none) →
      Text.byteLength (joined para more) ≤ limit →
      Laid limit heading (para :: (more ++ paras))
        (segmentsFrom limit ((titleOf? para).or heading)
          (some ⟨(titleOf? para).or heading, joined para more⟩) paras) := by
  induction paras with
  | nil => exact ⟨fun _ => .nil, fun _ _ _ hplain hfits => .joined hplain hfits nofun .nil⟩
  | cons next rest ih =>
      obtain ⟨ihfresh, ihgrowing⟩ := ih
      have hfresh : ∀ heading,
          Laid limit heading (next :: rest) (segmentsFrom limit heading none (next :: rest)) := by
        intro heading
        by_cases hlong : limit < Text.byteLength next
        · rw [segmentsFrom_long hlong]
          exact .cut hlong (ihfresh _)
        · have hshort := Nat.not_lt.1 hlong
          rw [segmentsFrom_short hshort]
          have hlaid := ihgrowing heading next [] nofun (by rw [joined_nil]; exact hshort)
          rw [joined_nil] at hlaid
          exact hlaid
      refine ⟨hfresh, ?_⟩
      intro heading para more hplain hfits
      by_cases htaken : titleOf? next = none ∧
          Text.byteLength (joined para more) + 2 + Text.byteLength next ≤ limit
      · obtain ⟨htitle, hroom⟩ := htaken
        rw [segmentsFrom_taken htitle hroom, ← joined_concat, List.append_cons]
        refine ihgrowing heading para (more ++ [next]) ?_ ?_
        · intro p hp
          rcases List.mem_append.1 hp with hp | hp
          · exact hplain p hp
          · rw [List.mem_singleton.1 hp]
            exact htitle
        · rw [byteLength_joined_concat]
          exact hroom
      · have hfull : titleOf? next ≠ none ∨
            limit < Text.byteLength (joined para more) + 2 + Text.byteLength next := by
          by_cases htitle : titleOf? next = none
          · exact .inr (Nat.not_le.1 fun hroom => htaken ⟨htitle, hroom⟩)
          · exact .inl htitle
        rw [segmentsFrom_closed hfull]
        refine .joined hplain hfits ?_ (hfresh _)
        intro p hp
        cases hp
        exact hfull

theorem laid_segmentsFrom (limit : Nat) (heading : Option (List Char))
    (paras : List (List Char)) :
    Laid limit heading paras (segmentsFrom limit heading none paras) :=
  (laid_pass limit paras).1 heading

end DocWatch
