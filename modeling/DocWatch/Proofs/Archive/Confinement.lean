import DocWatch.Archive.Path

/-!
# Which relative names stay in the tree, and what they become

`confine?` follows a path component by component and gives up at the first one
that leads elsewhere. What it decides can be said without any walk, over the
pieces between the slashes of the path: `Confinable` says which paths pass, and
`names` are the pieces that are left of them.

Both sides agree because a component is a piece, an empty piece or a dot at the
front apart. All else follows from cutting a joined path at its slashes again:
the pieces of the result are the names it was joined from, so it has no empty
piece, passes once more, and comes out unchanged.
-/

namespace DocWatch.Archive

/-- A piece that starts with an ASCII letter and a colon. -/
def DrivePrefixed (piece : List Char) : Prop :=
  ∃ c rest, piece = c :: ':' :: rest ∧
    (('a' ≤ c ∧ c ≤ 'z') ∨ ('A' ≤ c ∧ c ≤ 'Z'))

/-- The pieces between slashes that name something, in order. -/
def names (path : List Char) : List (List Char) :=
  (path.splitOn '/').filter fun piece => piece ≠ [] ∧ piece ≠ ['.']

/-- A relative path that leads to something in the tree below its start. -/
structure Confinable (path : List Char) : Prop where
  noBackslash : '\\' ∉ path
  relative : path.head? ≠ some '/'
  inside : ['.', '.'] ∉ path.splitOn '/'
  noDrive : ∀ piece ∈ path.splitOn '/', ¬ DrivePrefixed piece
  named : ∃ piece ∈ path.splitOn '/', piece ≠ [] ∧ piece ≠ ['.']

/-- A path in its one form. -/
structure Canonical (path : List Char) : Prop where
  nonempty : path ≠ []
  pieces : ∀ piece ∈ path.splitOn '/',
    piece ≠ [] ∧ piece ≠ ['.'] ∧ piece ≠ ['.', '.']
  noLeadingSlash : path.head? ≠ some '/'
  noTrailingSlash : path.getLast? ≠ some '/'
  fixed : confine? path = some path

theorem isAlpha_iff {c : Char} :
    c.isAlpha = true ↔ ('a' ≤ c ∧ c ≤ 'z') ∨ ('A' ≤ c ∧ c ≤ 'Z') := by
  have hlower : c.isLower = true ↔ 'a' ≤ c ∧ c ≤ 'z' := by
    change (decide ('a' ≤ c) && decide (c ≤ 'z')) = true ↔ _
    rw [Bool.and_eq_true, decide_eq_true_eq, decide_eq_true_eq]
  have hupper : c.isUpper = true ↔ 'A' ≤ c ∧ c ≤ 'Z' := decide_eq_true_iff
  rw [← hlower, ← hupper, or_comm, ← Bool.or_eq_true]
  rfl

theorem isDrive_iff {piece : List Char} :
    isDrive piece = true ↔ DrivePrefixed piece := by
  constructor
  · intro h
    unfold isDrive at h
    split at h
    · rename_i c rest
      exact ⟨c, rest, rfl, isAlpha_iff.1 h⟩
    · cases h
  · rintro ⟨c, rest, rfl, h⟩
    exact isAlpha_iff.2 h

/-! ## Pieces and their joins -/

theorem splitBy_slash (path : List Char) :
    Text.splitBy (· = '/') path = path.splitOn '/' := by
  rw [Text.splitBy_eq_splitOnP, List.splitOn_eq_splitOnP]
  congr 1

theorem slash_not_mem_piece {path piece : List Char}
    (h : piece ∈ path.splitOn '/') : '/' ∉ piece := by
  intro hc
  rw [← splitBy_slash] at h
  have := Text.not_of_mem_splitBy h hc
  simp at this

theorem joinPath_cons {part : List Char} {parts : List (List Char)}
    (h : parts ≠ []) : joinPath (part :: parts) = part ++ '/' :: joinPath parts := by
  cases parts with
  | nil => exact absurd rfl h
  | cons next rest => simp [joinPath, List.intercalate]

theorem mem_joinPath {parts : List (List Char)} {c : Char}
    (h : c ∈ joinPath parts) : c = '/' ∨ ∃ part ∈ parts, c ∈ part := by
  induction parts with
  | nil => cases h
  | cons part rest ih =>
      cases hrest : rest with
      | nil =>
          rw [hrest] at h
          exact Or.inr ⟨part, List.mem_cons_self, by simpa [joinPath] using h⟩
      | cons next more =>
          rw [joinPath_cons (by simp [hrest]), List.mem_append, List.mem_cons] at h
          rcases h with hpart | rfl | hc
          · exact Or.inr ⟨part, List.mem_cons_self, hpart⟩
          · exact Or.inl rfl
          · rcases ih hc with hslash | ⟨other, hother, hmem⟩
            · exact Or.inl hslash
            · exact Or.inr ⟨other, List.mem_cons_of_mem _ (hrest ▸ hother), hmem⟩

theorem mem_joinPath_of_mem {parts : List (List Char)} {part : List Char} {c : Char}
    (hpart : part ∈ parts) (hc : c ∈ part) : c ∈ joinPath parts := by
  induction parts with
  | nil => cases hpart
  | cons first rest ih =>
      cases hrest : rest with
      | nil =>
          rw [hrest] at hpart
          obtain rfl := List.mem_singleton.1 hpart
          simpa [joinPath] using hc
      | cons next more =>
          rw [← hrest, joinPath_cons (by simp [hrest]), List.mem_append, List.mem_cons]
          rcases List.mem_cons.1 hpart with rfl | hpart
          · exact Or.inl hc
          · exact Or.inr (Or.inr (ih hpart))

theorem joinPath_splitOn (path : List Char) : joinPath (path.splitOn '/') = path :=
  List.intercalate_splitOn '/'

theorem mem_of_mem_piece {path piece : List Char} {c : Char}
    (h : piece ∈ path.splitOn '/') (hc : c ∈ piece) : c ∈ path :=
  joinPath_splitOn path ▸ mem_joinPath_of_mem h hc

theorem splitOn_of_head? {path : List Char} (h : path.head? = some '/') :
    ∃ next rest, path.splitOn '/' = [] :: next :: rest := by
  obtain ⟨below, rfl⟩ := List.head?_eq_some_iff.1 h
  rw [← List.nil_append ('/' :: below), List.splitOn_append_cons_self,
    List.splitOn_nil]
  cases hbelow : below.splitOn '/' with
  | nil => exact absurd hbelow (List.splitOn_ne_nil _ _)
  | cons next rest => exact ⟨next, rest, rfl⟩

theorem nil_mem_splitOn_of_getLast? {path : List Char}
    (h : path.getLast? = some '/') : [] ∈ path.splitOn '/' := by
  obtain ⟨front, rfl⟩ := List.getLast?_eq_some_iff.1 h
  rw [List.splitOn_append_cons_self]
  simp [List.splitOn_nil]

theorem mem_names {path piece : List Char} :
    piece ∈ names path ↔ piece ∈ path.splitOn '/' ∧ piece ≠ [] ∧ piece ≠ ['.'] := by
  simp [names]

theorem nil_not_mem_names {path : List Char} : [] ∉ names path :=
  fun h => (mem_names.1 h).2.1 rfl

/-! ## Components -/

theorem Component.ofPiece?_cases (piece : List Char) :
    ((piece = [] ∨ piece = ['.']) ∧ ofPiece? piece = none) ∨
    (piece = ['.', '.'] ∧ ofPiece? piece = some .up) ∨
    ((piece ≠ [] ∧ piece ≠ ['.'] ∧ piece ≠ ['.', '.']) ∧
      ofPiece? piece = some (.name piece)) := by
  unfold ofPiece?
  split
  · exact Or.inl ⟨Or.inl rfl, rfl⟩
  · exact Or.inl ⟨Or.inr rfl, rfl⟩
  · exact Or.inr (Or.inl ⟨rfl, rfl⟩)
  · rename_i h1 h2 h3
    exact Or.inr (Or.inr ⟨⟨h1, h2, h3⟩, rfl⟩)

/-- Components are the meanings of the pieces, with one more at the front where
the path starts with a slash or a dot. -/
theorem components_eq (path : List Char) :
    ∃ front, components path =
        front ++ (path.splitOn '/').filterMap Component.ofPiece? ∧
      ((path.head? = some '/' ∧ front = [.root]) ∨
        (path.head? ≠ some '/' ∧ (front = [.here] ∨ front = []))) := by
  unfold components
  rw [splitBy_slash]
  -- An empty piece with another behind it is a slash at the front, and only that.
  split
  · rename_i next rest hpieces
    have hjoin := joinPath_splitOn path
    rw [hpieces, joinPath_cons (List.cons_ne_nil _ _)] at hjoin
    exact ⟨[.root], by rw [hpieces]; rfl, Or.inl ⟨by rw [← hjoin]; rfl, rfl⟩⟩
  · rename_i rest hpieces
    refine ⟨[.here], by rw [hpieces]; rfl, Or.inr ⟨fun hslash => ?_, Or.inl rfl⟩⟩
    obtain ⟨_, _, hsplit⟩ := splitOn_of_head? hslash
    rw [hpieces] at hsplit
    cases hsplit
  · rename_i hslash _
    refine ⟨[], rfl, Or.inr ⟨fun h => ?_, Or.inr rfl⟩⟩
    obtain ⟨next, rest, hsplit⟩ := splitOn_of_head? h
    exact hslash next rest hsplit

theorem not_drivePrefixed_of_unnamed {piece : List Char}
    (h : piece = [] ∨ piece = ['.']) : ¬ DrivePrefixed piece := by
  rintro ⟨c, rest, heq, -⟩
  rcases h with rfl | rfl <;> cases heq

theorem namesOf?_pieces {pieces parts : List (List Char)} :
    namesOf? (pieces.filterMap Component.ofPiece?) = some parts ↔
      (['.', '.'] ∉ pieces ∧ ∀ piece ∈ pieces, ¬ DrivePrefixed piece) ∧
      parts = pieces.filter fun piece => piece ≠ [] ∧ piece ≠ ['.'] := by
  -- A piece means nothing, or the place above, or itself.
  induction pieces generalizing parts with
  | nil => simp [namesOf?, eq_comm]
  | cons piece rest ih =>
      rcases Component.ofPiece?_cases piece with
        ⟨hnone, heq⟩ | ⟨rfl, heq⟩ | ⟨⟨hne, hdot, hup⟩, heq⟩
      · have hdrive := not_drivePrefixed_of_unnamed hnone
        have hup : piece ≠ ['.', '.'] := by rcases hnone with rfl | rfl <;> decide
        have hdrop : ¬ (piece ≠ [] ∧ piece ≠ ['.']) := by
          rcases hnone with rfl | rfl <;> simp
        rw [List.filterMap_cons_none heq, ih, List.filter_cons_of_neg (by simpa using hdrop)]
        simp [hdrive, hup.symm]
      · rw [List.filterMap_cons_some heq, namesOf?]
        simp
      · rw [List.filterMap_cons_some heq, namesOf?,
          List.filter_cons_of_pos (by simp [hne, hdot])]
        split
        · rename_i hdrive
          simp [isDrive_iff.1 hdrive]
        · rename_i hdrive
          rw [isDrive_iff] at hdrive
          simp only [Option.map_eq_some_iff, ih, List.mem_cons, forall_eq_or_imp, not_or,
            hdrive, hup.symm, not_false_eq_true, true_and, ne_eq]
          constructor
          · rintro ⟨parts', ⟨h, rfl⟩, rfl⟩
            exact ⟨h, rfl⟩
          · rintro ⟨h, rfl⟩
            exact ⟨_, ⟨h, rfl⟩, rfl⟩

theorem namesOf?_components {path : List Char} {parts : List (List Char)} :
    namesOf? (components path) = some parts ↔
      path.head? ≠ some '/' ∧ ['.', '.'] ∉ path.splitOn '/' ∧
      (∀ piece ∈ path.splitOn '/', ¬ DrivePrefixed piece) ∧ parts = names path := by
  obtain ⟨front, hcomponents, ⟨hslash, rfl⟩ | ⟨hslash, hfront⟩⟩ := components_eq path
  · simp [hcomponents, namesOf?, hslash]
  · have hskip : namesOf? (components path) =
        namesOf? ((path.splitOn '/').filterMap Component.ofPiece?) := by
      rcases hfront with rfl | rfl <;> rw [hcomponents] <;> rfl
    rw [hskip, namesOf?_pieces, and_assoc]
    simp only [hslash, ne_eq, not_false_eq_true, true_and]
    rfl

/-! ## The one form -/

theorem confine?_eq_some_iff {path p : List Char} :
    confine? path = some p ↔ Confinable path ∧ p = joinPath (names path) := by
  unfold confine?
  split
  · rename_i hback
    have hback : '\\' ∈ path := by simpa using hback
    exact ⟨nofun, fun h => absurd hback h.1.noBackslash⟩
  · rename_i hback
    have hback : '\\' ∉ path := by simpa using hback
    constructor
    · intro h
      split at h
      · cases h
      · cases h
      · rename_i parts hne hparts
        cases h
        obtain ⟨hslash, hup, hdrive, rfl⟩ := namesOf?_components.1 hparts
        obtain ⟨part, hpart⟩ := List.exists_mem_of_ne_nil _ hne
        exact ⟨⟨hback, hslash, hup, hdrive, part, mem_names.1 hpart⟩, rfl⟩
    · rintro ⟨⟨-, hslash, hup, hdrive, piece, hpiece⟩, rfl⟩
      have hnames := namesOf?_components.2 ⟨hslash, hup, hdrive, rfl⟩
      have hne : names path ≠ [] := List.ne_nil_of_mem (mem_names.2 hpiece)
      rw [hnames]
      split
      · rename_i h
        cases h
      · rename_i h
        exact absurd (Option.some.inj h) hne
      · rename_i parts _ h
        rw [Option.some.inj h]

namespace Confinable

variable {path other : List Char}

theorem names_ne_nil (h : Confinable path) : names path ≠ [] := by
  obtain ⟨piece, hpiece⟩ := h.named
  exact List.ne_nil_of_mem (mem_names.2 hpiece)

/-- Cutting the one form at its slashes gives back the names it was made of. -/
theorem splitOn_joinPath (h : Confinable path) :
    (joinPath (names path)).splitOn '/' = names path :=
  List.splitOn_intercalate '/'
    (fun _ hpart => slash_not_mem_piece (mem_names.1 hpart).1) h.names_ne_nil

theorem names_joinPath (h : Confinable path) :
    names (joinPath (names path)) = names path := by
  rw [names, h.splitOn_joinPath, List.filter_eq_self]
  intro piece hpiece
  simpa using (mem_names.1 hpiece).2

/-- The one form is confinable again: it has no other pieces than the path has. -/
theorem joinPath_names (h : Confinable path) : Confinable (joinPath (names path)) where
  noBackslash := by
    intro hc
    rcases mem_joinPath hc with hslash | ⟨piece, hpiece, hc⟩
    · cases hslash
    · exact h.noBackslash (mem_of_mem_piece (mem_names.1 hpiece).1 hc)
  relative := by
    intro hslash
    obtain ⟨next, rest, hsplit⟩ := splitOn_of_head? hslash
    rw [h.splitOn_joinPath] at hsplit
    exact nil_not_mem_names (hsplit ▸ List.mem_cons_self)
  inside := by
    rw [h.splitOn_joinPath]
    exact fun hup => h.inside (mem_names.1 hup).1
  noDrive := by
    rw [h.splitOn_joinPath]
    exact fun piece hpiece => h.noDrive piece (mem_names.1 hpiece).1
  named := by
    obtain ⟨piece, hpiece⟩ := h.named
    rw [h.splitOn_joinPath]
    exact ⟨piece, mem_names.2 hpiece, hpiece.2⟩

theorem canonical (h : Confinable path) : Canonical (joinPath (names path)) where
  nonempty := by
    intro hnil
    have hsplit := h.splitOn_joinPath
    rw [hnil, List.splitOn_nil] at hsplit
    exact nil_not_mem_names (hsplit ▸ List.mem_cons_self)
  pieces := by
    rw [h.splitOn_joinPath]
    intro piece hpiece
    obtain ⟨hmem, hne, hdot⟩ := mem_names.1 hpiece
    exact ⟨hne, hdot, fun hup => h.inside (hup ▸ hmem)⟩
  noLeadingSlash := h.joinPath_names.relative
  noTrailingSlash := by
    intro hslash
    have hnil := nil_mem_splitOn_of_getLast? hslash
    rw [h.splitOn_joinPath] at hnil
    exact nil_not_mem_names hnil
  fixed := by
    rw [confine?_eq_some_iff, h.names_joinPath]
    exact ⟨h.joinPath_names, rfl⟩

theorem joinPath_names_inj (h : Confinable path) (hother : Confinable other) :
    joinPath (names path) = joinPath (names other) ↔ names path = names other := by
  constructor
  · intro heq
    rw [← h.splitOn_joinPath, heq, hother.splitOn_joinPath]
  · exact fun heq => congrArg joinPath heq

end Confinable

end DocWatch.Archive
