import DocWatch.Proofs.Archive.Account

/-!
# The documents of an archive

A tree that an extraction returns holds the documents of the archive and nothing
else, each under its own path and with the contents that came last. All the
members that are no documents might as well not be there, wherever they stand and
whatever they hold: the extraction goes past them in the state in which it came.

The paths of the tree are in one form. No two spellings of a path are told apart,
and no two paths are taken for one another, because the names that a path is made
of can be read off it.
-/

namespace DocWatch.Archive

variable {f : Filter}

/-! ## Members that are no documents -/

theorem Progress.takeAll_filter (p : Progress) (ms : List Member) :
    p.takeAll f (ms.filter (f.Accepted ·)) = p.takeAll f ms := by
  induction ms generalizing p with
  | nil => rfl
  | cons m rest ih =>
      by_cases hm : f.Accepted m
      · rw [List.filter_cons_of_pos (by simpa using hm), takeAll, takeAll]
        cases p.next f m with
        | error e => rfl
        | ok q => exact ih q
      · have hnext : p.next f m = .ok p := by
          rw [next, Filter.pathOf?_eq_none_iff.2 hm]
        rw [List.filter_cons_of_neg (by simpa using hm), takeAll, hnext, ih]

/-! ## Archives without documents -/

theorem ReadError.fault_ne_emptyArchive (r : ReadError) : r.fault ≠ .emptyArchive := by
  cases r with
  | other detail => nofun
  | abort cause => cases cause <;> nofun

theorem Progress.Stop.ne_emptyArchive {p : Progress} {m : Member} {e : Fault}
    (h : p.Stop f m e) : e ≠ .emptyArchive := by
  cases h with
  | broken => exact ReadError.fault_ne_emptyArchive _
  | tooLarge | tooMany | truncated => nofun

theorem Progress.Accounts.size_eq_zero_iff {p : Progress} {ms : List Member}
    (h : p.Accounts f ms) : p.tree.size = 0 ↔ ∀ m ∈ ms, ¬ f.Accepted m := by
  rw [← Tree.length_paths, List.length_eq_zero_iff, List.eq_nil_iff_forall_not_mem]
  constructor
  · rintro hempty m hm ⟨path, haccepts⟩
    exact hempty path ((h.mem_paths path).2 ⟨m, hm, haccepts⟩)
  · intro hnone path hpath
    obtain ⟨m, hm, haccepts⟩ := (h.mem_paths path).1 hpath
    exact hnone m hm ⟨path, haccepts⟩

theorem Filter.reaches_of_none {ms : List Member} (h : ∀ m ∈ ms, ¬ f.Accepted m) :
    f.Reaches ms .start := by
  rw [Reaches, ← Progress.takeAll_filter, List.filter_eq_nil_iff.2 (by simpa using h)]
  rfl

theorem Listing.extract_eq_emptyArchive_iff {l : Listing} :
    l.extract f = .error .emptyArchive ↔
      l.ending = none ∧ ∀ m ∈ l.members, ¬ f.Accepted m := by
  constructor
  · intro h
    generalize hfault : Fault.emptyArchive = e at h
    cases fails_of_extract h with
    | stopped _ _ hstop => exact absurd hfault.symm hstop.ne_emptyArchive
    | broken => exact absurd hfault.symm (ReadError.fault_ne_emptyArchive _)
    | empty hreaches hend hsize =>
        exact ⟨hend, hreaches.accounts.size_eq_zero_iff.1 hsize⟩
  · rintro ⟨hend, hnone⟩
    rw [extract, Filter.reaches_of_none hnone, hend]
    rfl

/-! ## The tree -/

/-- The tree that an extraction returns, archives without documents, and members
that are none. -/
theorem documents_of_archive (f : Filter) (l : Listing) :
    (∀ tree, l.extract f = .ok tree →
      tree.paths.Pairwise (· < ·) ∧
      (∀ path, path ∈ tree.paths ↔ ∃ m ∈ l.members, f.Accepts m path) ∧
      ∀ path bytes, tree.get? path = some bytes ↔ f.Keeps l.members path bytes) ∧
    (l.extract f = .error .emptyArchive ↔
      l.ending = none ∧ ∀ m ∈ l.members, ¬ f.Accepted m) ∧
    ∀ other : Listing, other.ending = l.ending →
      other.members.filter (f.Accepted ·) = l.members.filter (f.Accepted ·) →
      other.extract f = l.extract f := by
  refine ⟨fun tree htree => ?_, Listing.extract_eq_emptyArchive_iff, ?_⟩
  · obtain ⟨p, hreaches, -, -, rfl⟩ := Listing.extract_eq_ok_iff.1 htree
    have haccounts := hreaches.accounts
    exact ⟨haccounts.sound.ascending, haccounts.mem_paths, haccounts.get?⟩
  · intro other hending hfilter
    have htake : Progress.start.takeAll f other.members =
        Progress.start.takeAll f l.members := by
      rw [← Progress.takeAll_filter, hfilter, Progress.takeAll_filter]
    rw [Listing.extract, Listing.extract, htake, hending]

/-- One path in two spellings, with a member between them that is no document. -/
def repeated : Listing where
  members := [⟨"docs-main/docs/a.md", true, 3, .read [1, 2, 3]⟩,
    ⟨"docs-main/README", true, 2, .read [8, 9]⟩,
    ⟨"docs-main/docs/./a.md", true, 1, .read [7]⟩,
    ⟨"docs-main/docs/B.MD", true, 0, .read []⟩]
  ending := none

theorem last_of_repeated :
    repeated.extract .standard = .ok ⟨[("B.MD", []), ("a.md", [7])], 1⟩ ∧
      Filter.standard.Keeps repeated.members "a.md" [7] :=
  ⟨rfl, (((documents_of_archive .standard repeated).1 _ rfl).2.2 "a.md" [7]).1 rfl⟩

/-! ## Paths -/

theorem Filter.Accepts.canonical {m : Member} {path : String} (h : f.Accepts m path) :
    Canonical path.toList := by
  obtain ⟨root, below, -, -, hconfine⟩ := h.placed
  obtain ⟨hconf, heq⟩ := confine?_eq_some_iff.1 hconfine
  exact heq ▸ hconf.canonical

/-- Every path of a tree is one under which some member was accepted. -/
theorem exists_accepts_of_extract {feed : Feed} {tree : Tree} {path : String}
    (htree : extract f feed = .ok tree) (hpath : path ∈ tree.paths) : ∃ m, f.Accepts m path := by
  obtain ⟨p, hreaches, -, -, rfl⟩ := Listing.extract_eq_ok_iff.1 htree
  obtain ⟨m, -, haccepts⟩ := (hreaches.accounts.mem_paths path).1 hpath
  exact ⟨m, haccepts⟩

/-- Which relative names are confined, what to, and what that means for a tree. -/
theorem confined_to_one_form (name : List Char) :
    ((∃ p, confine? name = some p) ↔ Confinable name) ∧
    (∀ p, confine? name = some p → p = joinPath (names name) ∧ Canonical p) ∧
    (∀ other p q, confine? name = some p → confine? other = some q →
      (p = q ↔ names name = names other)) ∧
    ∀ f feed tree, extract f feed = .ok tree →
      ∀ path ∈ tree.paths, Canonical path.toList := by
  refine ⟨⟨?_, fun h => ⟨_, confine?_eq_some_iff.2 ⟨h, rfl⟩⟩⟩, fun p hp => ?_,
    fun other p q hp hq => ?_, fun f feed tree htree path hpath => ?_⟩
  · rintro ⟨p, hp⟩
    exact (confine?_eq_some_iff.1 hp).1
  · obtain ⟨hconf, rfl⟩ := confine?_eq_some_iff.1 hp
    exact ⟨rfl, hconf.canonical⟩
  · obtain ⟨hname, rfl⟩ := confine?_eq_some_iff.1 hp
    obtain ⟨hother, rfl⟩ := confine?_eq_some_iff.1 hq
    exact hname.joinPath_names_inj hother
  · obtain ⟨p, hreaches, -, -, rfl⟩ := Listing.extract_eq_ok_iff.1 htree
    obtain ⟨m, -, haccepts⟩ := (hreaches.accounts.mem_paths path).1 hpath
    exact haccepts.canonical

theorem confined_to_one_form_of_dots :
    confine? "./guide//./setup.md".toList = some "guide/setup.md".toList ∧
      Canonical "guide/setup.md".toList :=
  ⟨rfl, ((confined_to_one_form "./guide//./setup.md".toList).2.1 _ rfl).2⟩

end DocWatch.Archive
