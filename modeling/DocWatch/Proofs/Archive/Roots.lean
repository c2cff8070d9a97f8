import DocWatch.Proofs.Archive.Documents
import Mathlib.Data.List.DropRight

/-!
# What the name of the root directory can hide

A name must not start at the root of the file system, and must not go up. Both are looked
for behind the directory of the documents only: the root directory of the archive has been
taken off before, whatever it is called. So some hostile names pass, and it can be said
which. The root directory in them is empty, as in a name that starts with a slash, or it is
two dots, unless the directory of the documents goes up itself.

All members with other hostile names might as well not be there. And the name of the root
directory decides nothing at all: give each member another one, and the same tree comes out.
-/

namespace DocWatch.Archive

variable {f : Filter} {m : Member} {path : String} {name root rest : List Char}

/-- A name that is absolute or goes up somewhere. -/
def Hostile (name : List Char) : Prop :=
  name.head? = some '/' ∨ ['.', '.'] ∈ name.splitOn '/'

/-- A name that is hostile in the part that is taken off, up to the end of the directory
of the documents. -/
def Filter.HostileFront (f : Filter) (name : List Char) : Prop :=
  name.takeWhile (· ≠ '/') = [] ∨ name.takeWhile (· ≠ '/') = ['.', '.'] ∨
    ['.', '.'] ∈ f.docsDir.toList.splitOn '/'

instance : DecidablePred Hostile := fun _ =>
  inferInstanceAs (Decidable (_ ∨ _))

instance (f : Filter) : DecidablePred f.HostileFront := fun _ =>
  inferInstanceAs (Decidable (_ ∨ _ ∨ _))

/-! ## Names that pass -/

theorem ne_slash_of_mem (h : '/' ∉ root) : ∀ c ∈ root, decide (c ≠ '/') = true := by
  intro c hc
  exact decide_eq_true fun heq => h (heq ▸ hc)

theorem takeWhile_of_root (h : '/' ∉ root) :
    (root ++ '/' :: rest).takeWhile (· ≠ '/') = root := by
  rw [List.takeWhile_append_of_pos (ne_slash_of_mem h), List.takeWhile_cons_of_neg (by decide),
    List.append_nil]

theorem head?_of_root (h : '/' ∉ root) :
    (root ++ '/' :: rest).head? = some '/' ↔ root = [] := by
  cases root with
  | nil => simp
  | cons c more =>
      have hc : c ≠ '/' := fun heq => h (heq ▸ List.mem_cons_self)
      simp [hc]

/-- Behind the directory of the documents there is nothing hostile left. -/
theorem Filter.Accepts.hostile_iff (h : f.Accepts m path) :
    Hostile m.name.toList ↔ f.HostileFront m.name.toList := by
  obtain ⟨root, below, hname, hroot, hconfine⟩ := h.placed
  have hinside : ['.', '.'] ∉ below.splitOn '/' := (confine?_eq_some_iff.1 hconfine).1.inside
  rw [Hostile, HostileFront, hname, takeWhile_of_root hroot, head?_of_root hroot,
    List.splitOn_append_cons_self, List.splitOn_append_cons_self,
    List.splitOn_eq_singleton hroot]
  simp only [List.mem_append, List.mem_singleton, hinside, or_false, eq_comm]

theorem Listing.extract_filter (l : Listing) {keep : Member → Bool}
    (h : ∀ m ∈ l.members, f.Accepted m → keep m = true) :
    Listing.extract f ⟨l.members.filter keep, l.ending⟩ = l.extract f := by
  have hkept : (l.members.filter keep).filter (f.Accepted ·) =
      l.members.filter (f.Accepted ·) := by
    rw [List.filter_filter]
    refine List.filter_congr fun m hm => ?_
    by_cases haccepted : f.Accepted m
    · simp [h m hm haccepted]
    · simp [haccepted]
  have htake : Progress.start.takeAll f (l.members.filter keep) =
      Progress.start.takeAll f l.members := by
    rw [← Progress.takeAll_filter, hkept, Progress.takeAll_filter]
  rw [extract, extract, htake]

/-! ## Other root directories -/

/-- The member with another root directory. -/
def Member.reroot (root : List Char) (m : Member) : Member :=
  { m with name := String.ofList (root ++ m.name.toList.dropWhile (· ≠ '/')) }

theorem exists_root_iff :
    (∃ root, name = root ++ '/' :: rest ∧ '/' ∉ root) ↔
      name.dropWhile (· ≠ '/') = '/' :: rest := by
  constructor
  · intro h
    obtain ⟨root, rfl, hroot⟩ := h
    have htake : (root ++ '/' :: rest).takeWhile (· ≠ '/') = root := takeWhile_of_root hroot
    have hwhole := List.takeWhile_append_dropWhile (p := (· ≠ '/')) (l := root ++ '/' :: rest)
    rw [htake] at hwhole
    exact List.append_cancel_left hwhole
  · intro h
    refine ⟨name.takeWhile (· ≠ '/'), ?_, ?_⟩
    · rw [← h, List.takeWhile_append_dropWhile]
    · intro hslash
      simpa using List.mem_takeWhile_imp hslash

theorem dropWhile_reroot (h : '/' ∉ root) :
    (root ++ name.dropWhile (· ≠ '/')).dropWhile (· ≠ '/') = name.dropWhile (· ≠ '/') := by
  rw [List.dropWhile_append_of_pos (ne_slash_of_mem h), List.dropWhile_idempotent]

theorem belowDocs?_reroot (h : '/' ∉ root) (docsDir : List Char) :
    belowDocs? docsDir (root ++ name.dropWhile (· ≠ '/')) = belowDocs? docsDir name := by
  refine Option.ext fun below => ?_
  rw [belowDocs?_eq_some_iff, belowDocs?_eq_some_iff, exists_root_iff, exists_root_iff,
    dropWhile_reroot h]

theorem Filter.pathOf?_reroot (h : '/' ∉ root) : f.pathOf? (m.reroot root) = f.pathOf? m := by
  rw [pathOf?, pathOf?, Member.reroot, String.toList_ofList, belowDocs?_reroot h]

namespace Progress

variable {p q : Progress}

/-- The name of a member is in the report of a failure, but not in what is taken. -/
theorem take_reroot_eq_ok_iff :
    p.take f path (m.reroot root) = .ok q ↔ p.take f path m = .ok q := by
  have hsize : (m.reroot root).size = m.size := rfl
  have hpayload : (m.reroot root).payload = m.payload := rfl
  rw [take, take, hsize, hpayload]
  split
  · simp
  split
  · rfl
  split
  · rfl
  split
  · rfl
  · simp

theorem next_reroot_eq_ok_iff (h : '/' ∉ root) :
    p.next f (m.reroot root) = .ok q ↔ p.next f m = .ok q := by
  rw [next, next, Filter.pathOf?_reroot h]
  split
  · rfl
  · exact take_reroot_eq_ok_iff

theorem takeAll_cons_eq_ok_iff {ms : List Member} :
    p.takeAll f (m :: ms) = .ok q ↔ ∃ p', p.next f m = .ok p' ∧ p'.takeAll f ms = .ok q := by
  rw [takeAll]
  cases p.next f m with
  | error e => simp
  | ok p' => simp

theorem takeAll_reroot_eq_ok_iff {ms : List Member} {rootOf : Member → List Char}
    (h : ∀ m ∈ ms, '/' ∉ rootOf m) :
    p.takeAll f (ms.map fun m => m.reroot (rootOf m)) = .ok q ↔ p.takeAll f ms = .ok q := by
  induction ms generalizing p with
  | nil => rfl
  | cons m more ih =>
      obtain ⟨hm, hmore⟩ := List.forall_mem_cons.1 h
      simp only [List.map_cons, takeAll_cons_eq_ok_iff, next_reroot_eq_ok_iff hm, ih hmore]

end Progress

/-- Of the members with hostile names those alone are documents whose names are hostile in
front. All others can be removed, and which of the two kinds a name is of is decided by the
root directory, on which no tree depends. -/
theorem hostile_names_of_archive (f : Filter) (l : Listing) :
    (∀ m path, f.Accepts m path → (Hostile m.name.toList ↔ f.HostileFront m.name.toList)) ∧
    Listing.extract f ⟨l.members.filter fun m =>
        ¬ (Hostile m.name.toList ∧ ¬ f.HostileFront m.name.toList), l.ending⟩ = l.extract f ∧
    ∀ rootOf : Member → List Char, (∀ m ∈ l.members, '/' ∉ rootOf m) → ∀ tree,
      Listing.extract f ⟨l.members.map fun m => m.reroot (rootOf m), l.ending⟩ = .ok tree ↔
        l.extract f = .ok tree := by
  refine ⟨fun m path h => h.hostile_iff, l.extract_filter fun m hm haccepted => ?_,
    fun rootOf hroot tree => ?_⟩
  · obtain ⟨path, haccepts⟩ := haccepted
    have hiff := haccepts.hostile_iff
    exact decide_eq_true fun h => h.2 (hiff.1 h.1)
  · simp only [Listing.extract_eq_ok_iff, Filter.Reaches,
      Progress.takeAll_reroot_eq_ok_iff hroot]

/-- An absolute name, a name that goes up, and a harmless one. -/
def smuggled : Listing where
  members := [⟨"/docs/absolute.md", true, 1, .read [1]⟩,
    ⟨"../docs/above.md", true, 1, .read [2]⟩,
    ⟨"docs-main/docs/safe.md", true, 1, .read [3]⟩]
  ending := none

theorem hostile_names_of_smuggled :
    Filter.standard.HostileFront "../docs/above.md".toList ∧
    Listing.extract .standard
        ⟨smuggled.members.map fun m => m.reroot "docs-main".toList, smuggled.ending⟩ =
      .ok ⟨[("above.md", [2]), ("absolute.md", [1]), ("safe.md", [3])], 3⟩ := by
  have haccepts : Filter.standard.Accepts ⟨"../docs/above.md", true, 1, .read [2]⟩ "above.md" :=
    Filter.pathOf?_eq_some_iff.1 (by decide +kernel)
  obtain ⟨hfront, -, hreroot⟩ := hostile_names_of_archive .standard smuggled
  exact ⟨(hfront _ _ haccepts).1 (by decide),
    (hreroot (fun _ => "docs-main".toList) (by decide) _).2 rfl⟩

theorem smuggled_is_extracted :
    Hostile "/docs/absolute.md".toList ∧ Hostile "../docs/above.md".toList ∧
    smuggled.extract .standard =
      .ok ⟨[("above.md", [2]), ("absolute.md", [1]), ("safe.md", [3])], 3⟩ ∧
    Listing.extract .standard
        ⟨smuggled.members.filter fun m => ¬ Hostile m.name.toList, smuggled.ending⟩ =
      .ok ⟨[("safe.md", [3])], 1⟩ := by
  refine ⟨by decide, by decide, rfl, ?_⟩
  decide +kernel

end DocWatch.Archive
