import DocWatch.Proofs.Chunk.Offsets
import DocWatch.Proofs.Index.Retrieval
import DocWatch.Proofs.Text.Lowercase
import DocWatch.Proofs.Text.Search
import DocWatch.Proofs.Text.Trim
import Mathlib.Order.Monotone.Basic

/-!
# What a snippet shows

A snippet is cut out by byte offsets. It begins 80 bytes before what was found and is 240
bytes long, and both ends are moved back to places between two characters, by three bytes
at most each. So what is found lies in the window if it has no more than 157 bytes, and
since a term holds no blank, trimming the window leaves it whole.

A chunk is searched with its ASCII letters in lower case, and the terms looked for are in
lower case altogether. Where one of them is found that way, it is in the snippet in lower
case as well. A term that has other letters, and that the chunk spells with a capital one,
is missed: then the snippet is the opening of the chunk, wherever the term stands.
-/

namespace DocWatch

open Text

section

variable {text front window back needle : List Char} {needles : List (List Char)} {found : Nat}

/-! ## The window -/

/-- A text divided around the window for a place in it. -/
structure Windowed (text : List Char) (found : Nat) (front window back : List Char) : Prop where
  before : takeBytes (found - snippetBytes / 3) text = (front, window ++ back)
  within : takeBytes snippetBytes (window ++ back) = (window, back)

/-- The dots that stand for a part of a text, where there is one. -/
def dotsFor (part : List Char) : List Char :=
  if part = [] then [] else ['.', '.', '.']

theorem snippet_eq (text : List Char) (needles : List (List Char)) :
    ∃ front window back,
      Windowed text (byteLength (text.take (firstMatch text needles))) front window back ∧
        snippet text needles = dotsFor front ++ trim window ++ dotsFor back := by
  refine ⟨_, _, _, ⟨?_, ?_⟩, rfl⟩
  · rw [takeBytes_append]
  · rw [takeBytes_append]

namespace Windowed

theorem split (h : Windowed text found front window back) : text = front ++ (window ++ back) := by
  rw [← takeBytes_append (found - snippetBytes / 3) text, h.before]

theorem byteLength_window_le (h : Windowed text found front window back) :
    byteLength window ≤ snippetBytes := by
  have hle := byteLength_takeBytes_le snippetBytes (window ++ back)
  rwa [h.within] at hle

theorem byteLength_front_le (h : Windowed text found front window back) :
    byteLength front ≤ found - snippetBytes / 3 := by
  have hle := byteLength_takeBytes_le (found - snippetBytes / 3) text
  rwa [h.before] at hle

/-- The window begins in front of what is found, and not far from it. -/
theorem exists_lead {ahead rest : List Char}
    (h : Windowed (ahead ++ rest) (byteLength ahead) front window back) :
    ∃ lead, ahead = front ++ lead ∧ window ++ back = lead ++ rest ∧ byteLength lead < 84 := by
  have hle := h.byteLength_front_le
  obtain ⟨lead, rfl, hlead⟩ : ∃ lead, ahead = front ++ lead ∧ window ++ back = lead ++ rest := by
    rcases List.append_eq_append_iff.1 h.split with ⟨lead, hfront, hrest⟩ | ⟨lead, hahead, hrest⟩
    · -- a front that went on behind the place would be longer than it may be
      rw [hfront, byteLength_append] at hle
      have hnil : lead = [] := byteLength_eq_zero_iff.1 (by omega)
      rw [hnil, List.append_nil] at hfront
      exact ⟨[], by rw [hfront, List.append_nil], by rw [hrest, hnil]; rfl⟩
    · exact ⟨lead, hahead, hrest⟩
  refine ⟨lead, rfl, hlead, ?_⟩
  cases lead with
  | nil => exact Nat.succ_pos _
  | cons c more =>
      have hbefore := h.before
      rw [hlead, List.cons_append] at hbefore
      have hmax := takeBytes_maximal hbefore
      have hc := c.utf8Size_le_four
      have hsize : byteLength [c] = c.utf8Size := rfl
      rw [byteLength_append, byteLength_append, hsize, snippetBytes] at hmax
      omega

theorem isInfix_window {ahead rest : List Char}
    (h : Windowed (ahead ++ (needle ++ rest)) (byteLength ahead) front window back)
    (hneedle : byteLength needle ≤ 157) : needle <:+: window := by
  obtain ⟨lead, -, hlead, hshort⟩ := h.exists_lead
  have hfits : byteLength (lead ++ needle) ≤ snippetBytes := by
    rw [byteLength_append, snippetBytes]
    omega
  have hwithin := h.within
  rw [hlead, ← List.append_assoc, takeBytes_append_of_le hfits] at hwithin
  rw [← (Prod.mk.inj hwithin).1]
  exact ⟨lead, _, rfl⟩

end Windowed

/-! ## Trimming -/

theorem clashes_of_disjoint {words : List Char} (hne : needle ≠ [])
    (h : ∀ c ∈ words, c ∉ needle) : Clashes needle words := by
  obtain ⟨x, more, rfl⟩ := List.exists_cons_of_ne_nil hne
  constructor
  · rw [Bool.eq_false_iff, ne_eq, occurs_iff]
    intro hinside
    exact h x (hinside.subset List.mem_cons_self) List.mem_cons_self
  · intro tail htail hne'
    obtain ⟨y, more', rfl⟩ := List.exists_cons_of_ne_nil hne'
    rw [Bool.eq_false_iff, ne_eq, startsWith_iff]
    intro hbegins
    have hy : y ∈ words := ((List.mem_tails _ _).1 htail).subset List.mem_cons_self
    exact h y hy (hbegins.subset List.mem_cons_self)

/-- What holds no blank is left whole by trimming. -/
theorem isInfix_trim_iff (hne : needle ≠ []) (h : ∀ c ∈ needle, isBlank c = false) :
    needle <:+: trim window ↔ needle <:+: window := by
  have hfree : ∀ c ∈ needle, isBlank c ≠ true := by
    intro c hc
    rw [h c hc]
    exact Bool.false_ne_true
  obtain ⟨front, back, hsplit, hfront, hback⟩ := exists_trim window
  have hbefore : Clashes needle front :=
    clashes_of_disjoint hne fun c hc hmem => hfree c hmem (hfront c hc)
  have hbehind : Clashes needle.reverse back.reverse := by
    refine clashes_of_disjoint (mt List.reverse_eq_nil_iff.1 hne) fun c hc hmem => ?_
    exact hfree c (List.mem_reverse.1 hmem) (hback c (List.mem_reverse.1 hc))
  conv_rhs => rw [hsplit]
  rw [hbehind.append_infix, hbefore.infix_append]

/-! ## What is found -/

/-- Where a needle is found, the window is for a place where one is. -/
theorem exists_firstMatch (h : ∃ needle ∈ needles, needle ≠ [] ∧ needle <:+: lowerAscii text) :
    ∃ needle ∈ needles, needle ≠ [] ∧
      firstIndex? needle (lowerAscii text) = some (firstMatch text needles) := by
  obtain ⟨needle, hmem, hne, hinside⟩ := h
  obtain ⟨i, hi⟩ := Option.isSome_iff_exists.1 (occurs_iff.2 hinside)
  have hplace : i ∈ (needles.filter (· ≠ [])).filterMap (firstIndex? · (lowerAscii text)) :=
    List.mem_filterMap.2 ⟨needle, List.mem_filter.2 ⟨hmem, decide_eq_true hne⟩, hi⟩
  obtain ⟨place, hmin⟩ := Option.isSome_iff_exists.1 (List.isSome_min?_of_mem hplace)
  have hfirst : firstMatch text needles = place := by
    rw [firstMatch, hmin]
    rfl
  obtain ⟨needle', hmem', hi'⟩ := List.mem_filterMap.1 (List.min?_mem hmin)
  rw [List.mem_filter] at hmem'
  exact ⟨needle', hmem'.1, of_decide_eq_true hmem'.2, by rw [hfirst]; exact hi'⟩

theorem firstMatch_eq_zero (h : ∀ needle ∈ needles, ¬ needle <:+: lowerAscii text) :
    firstMatch text needles = 0 := by
  have hnone : (needles.filter (· ≠ [])).filterMap (firstIndex? · (lowerAscii text)) = [] := by
    rw [List.filterMap_eq_nil_iff]
    intro needle hmem
    have hoccurs := mt occurs_iff.1 (h needle (List.mem_filter.1 hmem).1)
    exact Option.not_isSome_iff_eq_none.1 hoccurs
  rw [firstMatch, hnone]
  rfl

/-- A needle that is found in the text is found in the snippet. -/
theorem exists_isInfix_snippet
    (hneedles : ∀ needle ∈ needles, byteLength needle ≤ 157 ∧
      ∀ d ∈ needle, Settled d ∧ isBlank d = false)
    (h : ∃ needle ∈ needles, needle ≠ [] ∧ needle <:+: lowerAscii text) :
    ∃ needle ∈ needles, needle <:+: lower (snippet text needles) := by
  obtain ⟨needle, hmem, hne, hfirst⟩ := exists_firstMatch h
  obtain ⟨hlength, hplain⟩ := hneedles needle hmem
  obtain ⟨ahead, rest, hlower, hplace⟩ := append_of_firstIndex? hfirst
  rw [lowerAscii, List.append_assoc] at hlower
  -- the text has the same places as the text that is searched
  obtain ⟨ahead, more, rfl, rfl, hmore⟩ := List.map_eq_append_iff.1 hlower
  obtain ⟨spelled, rest, rfl, rfl, rfl⟩ := List.map_eq_append_iff.1 hmore
  have hsettled : ∀ c ∈ spelled, Settled c.toLower ∧ isBlank c = false := by
    intro c hc
    rw [← isBlank_toLower]
    exact hplain _ (List.mem_map_of_mem hc)
  have hspelled : spelled ≠ [] := mt (congrArg (List.map Char.toLower)) hne
  obtain ⟨front, window, back, hwindow, hsnippet⟩ :=
    snippet_eq (ahead ++ (spelled ++ rest)) needles
  rw [← hplace, List.length_map, List.take_left] at hwindow
  have hinside : spelled <:+: window := by
    refine hwindow.isInfix_window ?_
    rw [← byteLength_lowerAscii]
    exact hlength
  have htrim := (isInfix_trim_iff hspelled fun c hc => (hsettled c hc).2).2 hinside
  refine ⟨_, hmem, isInfix_lower ?_ fun c hc => (hsettled c hc).1⟩
  rw [hsnippet]
  exact htrim.trans ⟨dotsFor front, dotsFor back, rfl⟩

/-! ## The window by offsets -/

namespace Text

/-- The part of a text between two byte offsets, unless one of them is no place to cut. -/
def slice? (start stop : Nat) (s : List Char) : Option (List Char) := do
  let cut ← splitAtByte? stop s
  let part ← splitAtByte? start cut.1
  some part.2

theorem slice?_append (front window back : List Char) :
    slice? (byteLength front) (byteLength (front ++ window)) (front ++ window ++ back) =
      some window := by
  simp only [slice?, splitAtByte?_append, Option.bind_eq_bind, Option.bind_some]

end Text

/-- The offset of the first occurrence of any needle, compared byte by byte. -/
def firstOffset (text : List Char) (needles : List (List Char)) : Nat :=
  let places := (needles.filter (· ≠ [])).filterMap fun needle =>
    firstIndex? (encode needle) (encode (lowerAscii text))
  places.min?.getD 0

/-- The window of a text around the first occurrence of a needle, sliced out by offsets. -/
def snippetByOffset? (text : List Char) (needles : List (List Char)) : Option (List Char) := do
  let start := snap text (firstOffset text needles - snippetBytes / 3)
  let stop := snap text (min (start + snippetBytes) (byteLength text))
  let window ← slice? start stop text
  let dots := ['.', '.', '.']
  some ((if 0 < start then dots else []) ++ trim window ++
    (if stop < byteLength text then dots else []))

theorem min?_map {f : Nat → Nat} (hf : Monotone f) (l : List Nat) :
    (l.map f).min? = l.min?.map f := by
  cases l with
  | nil => rfl
  | cons a rest =>
      rw [List.map_cons, List.min?_cons', List.min?_cons', Option.map_some, List.foldl_map]
      exact congrArg some (List.foldl_hom f fun x y => hf.map_min.symm)

theorem monotone_byteLength_take (text : List Char) :
    Monotone fun i => byteLength (text.take i) := by
  intro i j hle
  exact byteLength_le_of_isInfix (List.take_prefix_take_left hle).isInfix

theorem firstOffset_eq (text : List Char) (needles : List (List Char)) :
    firstOffset text needles = byteLength (text.take (firstMatch text needles)) := by
  have hplaces : ((needles.filter (· ≠ [])).filterMap fun needle =>
      firstIndex? (encode needle) (encode (lowerAscii text))) =
        ((needles.filter (· ≠ [])).filterMap (firstIndex? · (lowerAscii text))).map
          fun i => byteLength (text.take i) := by
    rw [List.map_filterMap]
    refine List.filterMap_congr fun needle hmem => ?_
    rw [firstIndex?_encode (of_decide_eq_true (List.mem_filter.1 hmem).2)]
    refine congrArg (Option.map · _) (funext fun i => ?_)
    rw [lowerAscii, ← List.map_take]
    exact byteLength_lowerAscii (text.take i)
  rw [firstOffset, hplaces, min?_map (monotone_byteLength_take text), firstMatch]
  cases (((needles.filter (· ≠ [])).filterMap (firstIndex? · (lowerAscii text))).min?) <;> rfl

/-- No slice is refused, and the window is the one of the snippet. -/
theorem snippetByOffset?_eq (text : List Char) (needles : List (List Char)) :
    snippetByOffset? text needles = some (snippet text needles) := by
  obtain ⟨front, window, back, hwindow, hsnippet⟩ := snippet_eq text needles
  have hstart : snap text (firstOffset text needles - snippetBytes / 3) = byteLength front := by
    rw [snap_eq, firstOffset_eq, hwindow.before]
  have hstop : snap text (min (byteLength front + snippetBytes) (byteLength text)) =
      byteLength (front ++ window) := by
    rw [snap_eq, Nat.min_comm, takeBytes_min, hwindow.split,
      takeBytes_append_of_le (Nat.le_add_right _ _), Nat.add_sub_cancel_left, hwindow.within]
  have hslice : slice? (byteLength front) (byteLength (front ++ window)) text = some window := by
    rw [hwindow.split, ← List.append_assoc]
    exact slice?_append front window back
  have hfront : 0 < byteLength front ↔ ¬ front = [] := by
    rw [Nat.pos_iff_ne_zero, ne_eq, byteLength_eq_zero_iff]
  have hback : byteLength (front ++ window) < byteLength text ↔ ¬ back = [] := by
    rw [hwindow.split, ← List.append_assoc, byteLength_append (front ++ window),
      Nat.lt_add_right_iff_pos, Nat.pos_iff_ne_zero, ne_eq, byteLength_eq_zero_iff]
  simp only [snippetByOffset?, hstart, hstop, hslice, Option.bind_eq_bind, Option.bind_some,
    hfront, hback, ite_not, hsnippet, dotsFor]

theorem byteLength_snippet_le (text : List Char) (needles : List (List Char)) :
    byteLength (snippet text needles) ≤ 246 := by
  obtain ⟨front, window, back, hwindow, hsnippet⟩ := snippet_eq text needles
  have hdots : ∀ part, byteLength (dotsFor part) ≤ 3 := by
    intro part
    rw [dotsFor]
    split <;> decide
  have hfront := hdots front
  have hback := hdots back
  have hle := byteLength_le_of_isInfix (isInfix_trim window)
  have hbound : byteLength window ≤ 240 := hwindow.byteLength_window_le
  rw [hsnippet, byteLength_append, byteLength_append]
  omega

/-- What is shown of a text in which nothing was found. -/
def opening (text : List Char) : List Char :=
  trim (takeBytes snippetBytes text).1 ++ dotsFor (takeBytes snippetBytes text).2

theorem snippet_of_firstMatch (h : firstMatch text needles = 0) :
    snippet text needles = opening text := by
  obtain ⟨front, window, back, hwindow, hsnippet⟩ := snippet_eq text needles
  rw [h] at hwindow
  have hfront : front = [] :=
    byteLength_eq_zero_iff.1 (Nat.le_zero.1 hwindow.byteLength_front_le)
  have htake : takeBytes snippetBytes text = (window, back) := by
    rw [hwindow.split, hfront]
    exact hwindow.within
  rw [hsnippet, opening, htake, hfront]
  rfl

end

/-! ## Hits -/

namespace Index

/-- What a snippet shows of a text in answer to a query. -/
structure Shows (query : String) (text shown : List Char) : Prop where
  byOffset : snippetByOffset? text (needles query) = some shown
  short : byteLength shown ≤ 246
  /-- A token that the text holds, with its ASCII letters in lower case, is shown. -/
  found : (∀ token ∈ tokenize query, byteLength token.toList ≤ 150) →
    (∃ token ∈ tokenize query, token.toList <:+: lowerAscii text) →
      ∃ token ∈ tokenize query, token.toList <:+: lower shown
  /-- Where it holds none, the opening is shown. -/
  missed : tokenize query ≠ [] →
    (∀ token ∈ tokenize query, ¬ token.toList <:+: lowerAscii text) → shown = opening text

variable {R : Type} [Arithmetic R] {ix : Index} {query : String} {limit : Nat}

theorem mem_needles_iff (h : tokenize query ≠ []) {needle : List Char} :
    needle ∈ needles query ↔ ∃ token ∈ tokenize query, token.toList = needle := by
  rw [needles, if_neg (mt eraseDups_eq_nil_iff.1 h), List.mem_map]
  simp only [List.mem_eraseDups]

/-- A token is not empty, in lower case, and without blanks. -/
theorem token_plain {token : String} (h : token ∈ tokenize query) :
    token.toList ≠ [] ∧ ∀ d ∈ token.toList, Settled d ∧ isBlank d = false := by
  obtain ⟨term, hterm, rfl⟩ := List.mem_map.1 h
  obtain ⟨spelled, hspelled, rfl⟩ := List.mem_map.1 hterm
  rw [String.toList_ofList]
  refine ⟨mt lower_eq_nil_iff.1 (exists_piece_of_mem hspelled).1, fun d hd => ?_⟩
  refine ⟨settled_of_mem_lower hd, not_isBlank_of_mem_lower (fun c hc => ?_) hd⟩
  have hc := termChar_of_mem_spelledTerms hspelled c hc
  by_contra hblank
  rw [Bool.not_eq_false] at hblank
  rw [not_termChar_of_isBlank hblank] at hc
  cases hc

theorem shows_snippet (query : String) (text : List Char) :
    Shows query text (snippet text (needles query)) where
  byOffset := snippetByOffset?_eq text (needles query)
  short := byteLength_snippet_le text (needles query)
  found := by
    rintro hshort ⟨token, hmem, hinside⟩
    have hquery : tokenize query ≠ [] := List.ne_nil_of_mem hmem
    have hneedles : ∀ needle ∈ needles query, byteLength needle ≤ 157 ∧
        ∀ d ∈ needle, Settled d ∧ isBlank d = false := by
      intro needle hneedle
      obtain ⟨token, htoken, rfl⟩ := (mem_needles_iff hquery).1 hneedle
      have := hshort token htoken
      exact ⟨by omega, (token_plain htoken).2⟩
    obtain ⟨needle, hneedle, hshown⟩ := exists_isInfix_snippet hneedles
      ⟨token.toList, (mem_needles_iff hquery).2 ⟨token, hmem, rfl⟩, (token_plain hmem).1, hinside⟩
    obtain ⟨token', htoken', rfl⟩ := (mem_needles_iff hquery).1 hneedle
    exact ⟨token', htoken', hshown⟩
  missed := by
    intro hquery hnone
    refine snippet_of_firstMatch (firstMatch_eq_zero fun needle hneedle => ?_)
    obtain ⟨token, htoken, rfl⟩ := (mem_needles_iff hquery).1 hneedle
    exact hnone token htoken

/-- The snippet of a hit is a window of the chunk that is the best of its document. -/
theorem snippet_of_hit {hit : Hit R} (h : hit ∈ search ix query limit) :
    ∃ i e, (bestChunks ix (queryScores ix query)).get? hit.path = some (i, hit.score) ∧
      ix.entries[i]? = some e ∧ e.passage.path = hit.path ∧ e.passage.id = hit.chunk ∧
      Shows query e.passage.text.toList hit.snippet.toList := by
  obtain ⟨i, e, hbest, he, hpath, hid, hsnippet⟩ := exists_entry_of_mem_search h
  refine ⟨i, e, hbest, he, hpath, hid, ?_⟩
  rw [← hsnippet, String.toList_ofList]
  exact shows_snippet query e.passage.text.toList

/-- A word far behind the beginning of a text. -/
def farText (word : List Char) : List Char :=
  (List.replicate 150 ['x', ' ']).flatten ++ word

/-- The only chunk of a document that ends with a word. -/
def farWord (word : List Char) : Passage :=
  ⟨"a.md#0", "a.md", String.ofList (farText word)⟩

theorem tokenize_umlaut : tokenize "über" = [String.ofList ['ü', 'b', 'e', 'r']] := by
  decide +kernel

theorem exists_hit_farWord (word : List Char)
    (hcount : (terms (farText word)).length ≤ indexCapacity)
    (hterm : ['ü', 'b', 'e', 'r'] ∈ terms (farText word)) :
    ∃ ix, build [farWord word] = .ok ix ∧
      (∃ hit, hit ∈ (search ix "über" 10 : List (Hit Float))) ∧
        ∀ e ∈ ix.entries, e.passage = farWord word := by
  have htext : (farWord word).text.toList = farText word := String.toList_ofList
  have hbuild : build [farWord word] = .ok ([farWord word].foldl add empty) := by
    refine build_eq_ok_iff.2 ⟨⟨Nat.succ_le_succ (Nat.zero_le _), fun p hp => ?_⟩, rfl⟩
    rw [List.mem_singleton.1 hp, tokenize, htext, List.length_map]
    exact hcount
  have hindexed := indexed_of_build hbuild
  refine ⟨_, hbuild, ?_, fun e he => ?_⟩
  · have hanswers : Answers "über" (farWord word) := by
      rw [← htext] at hterm
      refine answers_of_mem_terms hterm ?_
      rw [tokenize_umlaut]
      exact List.mem_singleton_self _
    have hlimit : ([farWord word].map Passage.path).toFinset.card ≤ 10 := by simp
    obtain ⟨hit, hhit, -⟩ := List.mem_map.1
      (hindexed.path_mem_search (R := Float) hlimit (List.mem_singleton_self _) hanswers)
    exact ⟨hit, hhit⟩
  · rw [hindexed.entries_eq, List.map_singleton] at he
    rw [List.mem_singleton.1 he]

/-- A word in lower case is shown, however far behind the beginning. -/
theorem snippet_of_hit_umlaut :
    ∃ ix, build [farWord ['ü', 'b', 'e', 'r']] = .ok ix ∧
      ∃ hit ∈ (search ix "über" 10 : List (Hit Float)),
        ∃ token ∈ tokenize "über", token.toList <:+: lower hit.snippet.toList := by
  obtain ⟨ix, hbuild, ⟨hit, hhit⟩, hentries⟩ :=
    exists_hit_farWord ['ü', 'b', 'e', 'r'] (by decide +kernel) (by decide +kernel)
  obtain ⟨i, e, -, he, -, -, hshows⟩ := snippet_of_hit hhit
  have htext : e.passage.text.toList = farText ['ü', 'b', 'e', 'r'] := by
    rw [hentries e (List.mem_of_getElem? he), farWord, String.toList_ofList]
  rw [htext] at hshows
  refine ⟨ix, hbuild, hit, hhit, hshows.found ?_ ?_⟩
  · simp only [tokenize_umlaut, List.forall_mem_singleton, String.toList_ofList]
    decide
  · simp only [tokenize_umlaut, List.mem_singleton, exists_eq_left, String.toList_ofList]
    exact occurs_iff.1 (by decide +kernel)

/-- The same word in capitals is a word of the chunk, and the snippet is the opening. -/
theorem capital_umlaut_not_shown :
    ∃ ix, build [farWord ['Ü', 'B', 'E', 'R']] = .ok ix ∧
      ∃ hit ∈ (search ix "über" 10 : List (Hit Float)), ∃ e ∈ ix.entries,
        e.passage.path = hit.path ∧ e.passage.id = hit.chunk ∧
        (∀ token ∈ tokenize "über", byteLength token.toList ≤ 150) ∧
        (∃ token ∈ tokenize "über", token.toList <:+: lower e.passage.text.toList) ∧
        ¬ ∃ token ∈ tokenize "über", token.toList <:+: lower hit.snippet.toList := by
  obtain ⟨ix, hbuild, ⟨hit, hhit⟩, hentries⟩ :=
    exists_hit_farWord ['Ü', 'B', 'E', 'R'] (by decide +kernel) (by decide +kernel)
  obtain ⟨i, e, -, he, hpath, hid, hsnippet⟩ := exists_entry_of_mem_search hhit
  have htext : e.passage.text.toList = farText ['Ü', 'B', 'E', 'R'] := by
    rw [hentries e (List.mem_of_getElem? he), farWord, String.toList_ofList]
  have hneedles : needles "über" = [['ü', 'b', 'e', 'r']] := by
    decide +kernel
  refine ⟨ix, hbuild, hit, hhit, e, List.mem_of_getElem? he, hpath, hid, ?_⟩
  simp only [tokenize_umlaut, List.mem_singleton, exists_eq_left, forall_eq, String.toList_ofList,
    htext, ← hsnippet, hneedles, ← occurs_iff]
  decide +kernel

end Index

end DocWatch
