import DocWatch.Archive.Extract
import DocWatch.Proofs.Archive.Confinement

/-!
# Which members are documents

`pathOf?` takes the name of a member apart from the front, and its path from the
back. `Accepts` says the same of the name as a whole: which parts it is made of,
and which conditions they meet. It leaves no choice in the path, since the root
directory ends at the first slash of the name.
-/

namespace DocWatch.Archive

/-! ## Extensions -/

theorem takeWhile_reverse_append {c : Char} {tail : List Char} (h : c ∉ tail)
    (rest : List Char) :
    (tail.reverse ++ rest).takeWhile (· ≠ c) = tail.reverse ++ rest.takeWhile (· ≠ c) := by
  refine List.takeWhile_append_of_pos fun x hx => ?_
  have hne : x ≠ c := fun heq => h (List.mem_reverse.1 (heq ▸ hx))
  simpa using hne

theorem afterLast_of_not_mem {c : Char} {s : List Char} (h : c ∉ s) :
    afterLast c s = s := by
  have htake := takeWhile_reverse_append h []
  rw [List.append_nil, List.takeWhile_nil, List.append_nil] at htake
  rw [afterLast, htake, List.reverse_reverse]

theorem afterLast_append {c : Char} (front : List Char) {tail : List Char}
    (h : c ∉ tail) : afterLast c (front ++ c :: tail) = tail := by
  rw [afterLast, List.reverse_append, List.reverse_cons, List.append_assoc,
    takeWhile_reverse_append h, List.singleton_append,
    List.takeWhile_cons_of_neg (by simp), List.append_nil, List.reverse_reverse]

theorem exists_last {c : Char} {s : List Char} (h : c ∈ s) :
    ∃ front tail, s = front ++ c :: tail ∧ c ∉ tail := by
  obtain ⟨behind, before, heq, hnot⟩ :=
    List.eq_append_cons_of_mem (List.mem_reverse.2 h)
  refine ⟨before.reverse, behind.reverse, ?_, by simpa using hnot⟩
  rw [← List.reverse_reverse s, heq]
  simp

theorem getLast?_splitOn (path : List Char) :
    (path.splitOn '/').getLast? = some (afterLast '/' path) := by
  by_cases h : '/' ∈ path
  · obtain ⟨front, tail, rfl, htail⟩ := exists_last h
    rw [List.splitOn_append_cons_self, List.splitOn_eq_singleton htail,
      List.getLast?_concat, afterLast_append front htail]
  · rw [List.splitOn_eq_singleton h, afterLast_of_not_mem h]
    rfl

theorem extension?_eq_some_iff {path e : List Char}
    (h : ['.', '.'] ∉ path.splitOn '/') :
    extension? path = some e ↔ ∃ stem, stem ≠ [] ∧ '.' ∉ e ∧
      (path.splitOn '/').getLast? = some (stem ++ '.' :: e) := by
  have hlast := getLast?_splitOn path
  have hfile : afterLast '/' path ≠ ['.', '.'] := by
    intro heq
    rw [heq] at hlast
    exact h (List.mem_of_getLast? hlast)
  rw [hlast, extension?]
  generalize afterLast '/' path = file at hfile
  by_cases hdot : '.' ∈ file
  · obtain ⟨front, tail, rfl, htail⟩ := exists_last hdot
    have hfront : (front ++ '.' :: tail).take
        ((front ++ '.' :: tail).length - tail.length - 1) = front := by
      rw [List.length_append, List.length_cons, List.take_left' (by omega)]
    have hlength : tail.length ≠ (front ++ '.' :: tail).length := by
      rw [List.length_append, List.length_cons]
      omega
    simp only [afterLast_append front htail, hfront, hfile, hlength, false_or]
    constructor
    · intro h
      split at h
      · cases h
      · rename_i hne
        cases h
        exact ⟨front, hne, htail, rfl⟩
    · rintro ⟨stem, hne, he, heq⟩
      obtain heq := Option.some.inj heq
      -- The last dot is in one place only.
      have htails : tail = e := by
        rw [← afterLast_append front htail, heq, afterLast_append stem he]
      subst htails
      rw [List.append_cancel_right heq, if_neg hne]
  · simp only [afterLast_of_not_mem hdot, true_or, or_true, if_true]
    refine ⟨nofun, ?_⟩
    rintro ⟨stem, -, -, heq⟩
    exact absurd (Option.some.inj heq ▸ List.mem_append_right stem List.mem_cons_self) hdot

/-- A path whose last piece ends with a dot and an extension, in letters of
either case, and has something before the dot. -/
def HasExtension (extension path : List Char) : Prop :=
  ∃ stem e, (path.splitOn '/').getLast? = some (stem ++ '.' :: e) ∧
    stem ≠ [] ∧ '.' ∉ e ∧ e.map Char.toLower = extension.map Char.toLower

theorem hasExtension_iff {extension path : List Char}
    (h : ['.', '.'] ∉ path.splitOn '/') :
    hasExtension extension path = true ↔ HasExtension extension path := by
  rw [hasExtension]
  split
  · rename_i e he
    obtain ⟨stem, hne, hdot, hlast⟩ := (extension?_eq_some_iff h).1 he
    rw [decide_eq_true_eq]
    constructor
    · exact fun heq => ⟨stem, e, hlast, hne, hdot, heq⟩
    · rintro ⟨stem', e', hlast', hne', hdot', heq⟩
      have he' := (extension?_eq_some_iff h).2 ⟨stem', hne', hdot', hlast'⟩
      rw [he] at he'
      rw [Option.some.inj he', heq]
  · rename_i hnone
    refine ⟨nofun, ?_⟩
    rintro ⟨stem, e, hlast, hne, hdot, -⟩
    rw [(extension?_eq_some_iff h).2 ⟨stem, hne, hdot, hlast⟩] at hnone
    cases hnone

/-! ## Acceptance -/

theorem belowDocs?_eq_some_iff {docsDir name below : List Char} :
    belowDocs? docsDir name = some below ↔ below ≠ [] ∧
      ∃ root, name = root ++ '/' :: (docsDir ++ '/' :: below) ∧ '/' ∉ root := by
  simp only [belowDocs?, Option.bind_eq_bind, Option.bind_eq_some_iff, Prod.exists,
    Text.splitOnce_eq_some_iff, Text.stripFront?_eq_some_iff]
  constructor
  · rintro ⟨root, rest, ⟨rfl, hroot⟩, behind, rfl, h⟩
    split at h
    · rename_i path
      split at h
      · cases h
      · rename_i hne
        cases h
        exact ⟨hne, root, rfl, hroot⟩
    · cases h
  · rintro ⟨hne, root, rfl, hroot⟩
    exact ⟨root, _, ⟨rfl, hroot⟩, _, rfl, if_neg hne⟩

/-- A member holds a document, under a path. -/
structure Filter.Accepts (f : Filter) (m : Member) (path : String) : Prop where
  regular : m.regular = true
  placed : ∃ root below,
    m.name.toList = root ++ '/' :: (f.docsDir.toList ++ '/' :: below) ∧
    '/' ∉ root ∧ confine? below = some path.toList
  extension : HasExtension f.extension.toList path.toList

/-- A member holds a document. -/
def Filter.Accepted (f : Filter) (m : Member) : Prop :=
  ∃ path, f.Accepts m path

theorem Filter.pathOf?_eq_some_iff {f : Filter} {m : Member} {path : String} :
    f.pathOf? m = some path ↔ f.Accepts m path := by
  simp only [pathOf?, Option.bind_eq_bind, Option.bind_eq_some_iff,
    belowDocs?_eq_some_iff]
  constructor
  · rintro ⟨below, ⟨-, root, hname, hroot⟩, p, hp, h⟩
    split at h
    · rename_i hcond
      cases h
      obtain ⟨hregular, hext⟩ := Bool.and_eq_true_iff.1 hcond
      obtain ⟨hconf, rfl⟩ := confine?_eq_some_iff.1 hp
      rw [hasExtension_iff hconf.joinPath_names.inside] at hext
      exact ⟨hregular, ⟨root, below, hname, hroot, by rw [hp, String.toList_ofList]⟩,
        by rwa [String.toList_ofList]⟩
    · cases h
  · rintro ⟨hregular, ⟨root, below, hname, hroot, hp⟩, hext⟩
    have hne : below ≠ [] := by
      rintro rfl
      cases hp
    obtain ⟨hconf, hpath⟩ := confine?_eq_some_iff.1 hp
    have hinside : ['.', '.'] ∉ path.toList.splitOn '/' :=
      hpath ▸ hconf.joinPath_names.inside
    refine ⟨below, ⟨hne, root, hname, hroot⟩, path.toList, hp, ?_⟩
    rw [hregular, (hasExtension_iff hinside).2 hext, String.ofList_toList]
    rfl

theorem Filter.Accepts.unique {f : Filter} {m : Member} {p q : String}
    (hp : f.Accepts m p) (hq : f.Accepts m q) : p = q := by
  rw [← Filter.pathOf?_eq_some_iff] at hp hq
  exact Option.some.inj (hp ▸ hq)

theorem Filter.pathOf?_eq_none_iff {f : Filter} {m : Member} :
    f.pathOf? m = none ↔ ¬ f.Accepted m := by
  rw [Option.eq_none_iff_forall_ne_some]
  simp only [ne_eq, Filter.pathOf?_eq_some_iff, Accepted, not_exists]

instance (f : Filter) : DecidablePred f.Accepted := fun m =>
  decidable_of_iff ((f.pathOf? m).isSome = true) (by
    rw [Option.isSome_iff_exists]
    exact exists_congr fun _ => Filter.pathOf?_eq_some_iff)

end DocWatch.Archive
