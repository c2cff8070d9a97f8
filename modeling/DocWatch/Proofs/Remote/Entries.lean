import DocWatch.Proofs.Remote.Refs
import DocWatch.Proofs.Text.Lines
import DocWatch.Proofs.Text.Trim
import Mathlib.Tactic.IntervalCases

/-!
# What a listing says of its refs

An entry is a line that names a ref: up to its first tab it is a hash that is set off
by at most white space, and what stands behind the tab, trimmed, is the name. A listing
is read if each of its lines is an entry or blank, and of the entries with one name the
last one counts. Refs that are printed one on a line are read back as they were.
-/

namespace DocWatch.Refs

open Text

variable {listing line : List Char} {lines : List (List Char)} {refs : Refs}
  {name hash name' hash' : String}

/-- The digits of base sixteen. -/
def hexDigits : List Char :=
  "0123456789abcdefABCDEF".toList

/-- A hash as it may be written: digits of base sixteen, at least one. -/
def Hexadecimal (hash : String) : Prop :=
  hash ≠ "" ∧ ∀ c ∈ hash.toList, c ∈ hexDigits

/-- A line that names a ref. -/
structure Entry (line : List Char) (name hash : String) : Prop where
  hexadecimal : Hexadecimal hash
  layout : ∃ before after rest, line = before ++ hash.toList ++ after ++ '\t' :: rest ∧
    (∀ c ∈ before ++ after, isBlank c = true ∧ c ≠ '\t') ∧ name = String.ofList (trim rest)

/-- The hash on the last of the lines that gives a name. -/
def LastEntry (lines : List (List Char)) (name hash : String) : Prop :=
  ∃ before line later, lines = before ++ line :: later ∧ Entry line name hash ∧
    ∀ other ∈ later, ∀ hash, ¬ Entry other name hash

/-! ## One line -/

theorem isHexDigit_iff {c : Char} : isHexDigit c = true ↔ c ∈ hexDigits := by
  constructor
  · intro h
    have hrange : (48 ≤ c.toNat ∧ c.toNat ≤ 57) ∨ (97 ≤ c.toNat ∧ c.toNat ≤ 102) ∨
        (65 ≤ c.toNat ∧ c.toNat ≤ 70) := by
      simpa [isHexDigit, or_assoc, Char.le_def, UInt32.le_iff_toNat_le] using h
    have hc : c = Char.ofNat c.toNat := (Char.ofNat_toNat c).symm
    rw [hc]
    generalize c.toNat = n at hrange
    rcases hrange with ⟨hlo, hhi⟩ | ⟨hlo, hhi⟩ | ⟨hlo, hhi⟩ <;> interval_cases n <;> decide
  · intro h
    have hall : hexDigits.all isHexDigit = true := by decide
    exact List.all_eq_true.1 hall c h

theorem isHash_iff : isHash hash.toList = true ↔ Hexadecimal hash := by
  rw [isHash, Bool.and_eq_true, List.all_eq_true, Hexadecimal]
  refine and_congr ?_ (forall₂_congr fun c _ => isHexDigit_iff)
  rw [Bool.not_eq_true', List.isEmpty_eq_false_iff, ne_eq, ne_eq, String.toList_eq_nil_iff]

/-- A digit is no white space, and no line feed or tab in particular. -/
theorem not_isBlank_of_mem {c : Char} (h : c ∈ hexDigits) : isBlank c = false := by
  have hall : (hexDigits.all fun c => !isBlank c) = true := by decide
  simpa using List.all_eq_true.1 hall c h

theorem Hexadecimal.not_blank (h : Hexadecimal hash) : ∀ c ∈ hash.toList, isBlank c = false :=
  fun c hc => not_isBlank_of_mem (h.2 c hc)

theorem Hexadecimal.not_mem {c : Char} (h : Hexadecimal hash) (hc : isBlank c = true) :
    c ∉ hash.toList := by
  intro hmem
  rw [h.not_blank c hmem] at hc
  cases hc

theorem Hexadecimal.trim_around {before after : List Char} (h : Hexadecimal hash)
    (hblank : ∀ c ∈ before ++ after, isBlank c = true) :
    trim (before ++ hash.toList ++ after) = hash.toList := by
  refine trimBy_around ⟨fun c hc => ?_, fun c hc => ?_⟩ (fun c hc => ?_) fun c hc => ?_
  · exact h.not_blank c (List.mem_of_head? hc)
  · exact h.not_blank c (List.mem_of_getLast? hc)
  · exact hblank c (List.mem_append_left _ hc)
  · exact hblank c (List.mem_append_right _ hc)

theorem ofLine_eq_ok_iff : ofLine line = .ok (name, hash) ↔ Entry line name hash := by
  constructor
  · intro h
    rw [ofLine] at h
    split at h
    · cases h
    · rename_i front back hsplit
      obtain ⟨rfl, htab⟩ := splitOnce_eq_some_iff.1 hsplit
      split at h
      · rename_i hhash
        cases h
        refine ⟨isHash_iff.1 (by rwa [String.toList_ofList]), ?_⟩
        obtain ⟨before, after, hfront, hbefore, hafter⟩ := exists_trim front
        refine ⟨before, after, back, by rw [String.toList_ofList, ← hfront], ?_, rfl⟩
        intro c hc
        have hmem : c ∈ front := by
          rw [hfront]
          rcases List.mem_append.1 hc with hc | hc <;> simp [hc]
        refine ⟨?_, fun heq => htab (heq ▸ hmem)⟩
        exact (List.mem_append.1 hc).elim (hbefore c) (hafter c)
      · cases h
  · rintro ⟨hhash, before, after, rest, rfl, hblank, rfl⟩
    have htab : '\t' ∉ before ++ hash.toList ++ after := by
      intro hmem
      rw [List.mem_append, List.mem_append] at hmem
      rcases hmem with (hmem | hmem) | hmem
      · exact (hblank _ (List.mem_append_left _ hmem)).2 rfl
      · exact hhash.not_mem (by decide) hmem
      · exact (hblank _ (List.mem_append_right _ hmem)).2 rfl
    rw [ofLine, splitOnce_eq_some_iff.2 ⟨rfl, htab⟩]
    simp only [hhash.trim_around fun c hc => (hblank c hc).1, isHash_iff.2 hhash, if_true,
      String.ofList_toList]

/-! ## All lines -/

theorem parse_eq_ok_iff_map : parse listing = .ok refs ↔
    ∃ rows, (entryLines listing).map ofLine = rows.map .ok ∧ refs = Table.ofList rows := by
  rw [parse_eq_ok_iff]
  refine exists_congr fun rows => and_congr_left fun _ => ?_
  rw [← List.forall₂_eq_eq_eq, List.forall₂_map_left_iff, List.forall₂_map_right_iff]

theorem exists_rows (h : ∀ line ∈ lines, ∃ name hash, Entry line name hash) :
    ∃ rows : List (String × String), lines.map ofLine = rows.map .ok := by
  induction lines with
  | nil => exact ⟨[], rfl⟩
  | cons line rest ih =>
      obtain ⟨name, hash, hentry⟩ := h line List.mem_cons_self
      obtain ⟨rows, hrows⟩ := ih fun line hline => h line (List.mem_cons_of_mem _ hline)
      refine ⟨(name, hash) :: rows, ?_⟩
      rw [List.map_cons, List.map_cons, ofLine_eq_ok_iff.2 hentry, hrows]

theorem exists_parse_iff : (∃ refs, parse listing = .ok refs) ↔
    ∀ line ∈ entryLines listing, ∃ name hash, Entry line name hash := by
  constructor
  · rintro ⟨refs, h⟩ line hline
    obtain ⟨rows, hrows, -⟩ := parse_eq_ok_iff_map.1 h
    obtain ⟨row, -, hrow⟩ : ∃ row ∈ rows, Except.ok row = ofLine line := by
      rw [← List.mem_map, ← hrows]
      exact List.mem_map_of_mem hline
    exact ⟨row.1, row.2, ofLine_eq_ok_iff.1 hrow.symm⟩
  · intro h
    obtain ⟨rows, hrows⟩ := exists_rows h
    exact ⟨_, parse_eq_ok_iff_map.2 ⟨rows, hrows, rfl⟩⟩

theorem mem_names_iff {rows : List (String × String)} (hrows : lines.map ofLine = rows.map .ok) :
    name ∈ rows.map Prod.fst ↔ ∃ line ∈ lines, ∃ hash, Entry line name hash := by
  have hrow : ∀ hash, (name, hash) ∈ rows ↔ ∃ line ∈ lines, Entry line name hash := by
    intro hash
    have hok : (name, hash) ∈ rows ↔ (Except.ok (name, hash) : Except ListingFault _) ∈
        lines.map ofLine := by
      rw [hrows, List.mem_map_of_injective fun _ _ => Except.ok.inj]
    simp only [hok, List.mem_map, ofLine_eq_ok_iff]
  constructor
  · intro h
    obtain ⟨⟨name, hash⟩, hmem, rfl⟩ := List.mem_map.1 h
    obtain ⟨line, hline, hentry⟩ := (hrow hash).1 hmem
    exact ⟨line, hline, hash, hentry⟩
  · rintro ⟨line, hline, hash, hentry⟩
    exact List.mem_map.2 ⟨(name, hash), (hrow hash).2 ⟨line, hline, hentry⟩, rfl⟩

theorem lastEntry_iff {rows : List (String × String)} (hrows : lines.map ofLine = rows.map .ok) :
    LastEntry lines name hash ↔
      ∃ before later, rows = before ++ (name, hash) :: later ∧ name ∉ later.map Prod.fst := by
  constructor
  · rintro ⟨before, line, later, rfl, hentry, hlast⟩
    rw [List.map_append, List.map_cons, ofLine_eq_ok_iff.2 hentry] at hrows
    obtain ⟨before', rest, rfl, -, hrest⟩ := List.map_eq_append_iff.1 hrows.symm
    obtain ⟨row, later', rfl, hrow, hlater⟩ := List.map_eq_cons_iff.1 hrest
    cases hrow
    refine ⟨before', later', rfl, ?_⟩
    rw [mem_names_iff hlater.symm]
    rintro ⟨other, hother, hash, hentry⟩
    exact hlast other hother hash hentry
  · rintro ⟨before, later, rfl, hlast⟩
    rw [List.map_append, List.map_cons] at hrows
    obtain ⟨before', rest, rfl, -, hrest⟩ := List.map_eq_append_iff.1 hrows
    obtain ⟨line, later', rfl, hline, hlater⟩ := List.map_eq_cons_iff.1 hrest
    refine ⟨before', line, later', rfl, ofLine_eq_ok_iff.1 hline, ?_⟩
    intro other hother hash hentry
    exact hlast ((mem_names_iff hlater).2 ⟨other, hother, hash, hentry⟩)

theorem mem_keys_of_parse (h : parse listing = .ok refs) :
    name ∈ refs.keys ↔ ∃ line ∈ entryLines listing, ∃ hash, Entry line name hash := by
  obtain ⟨rows, hrows, rfl⟩ := parse_eq_ok_iff_map.1 h
  rw [Table.mem_keys_ofList, mem_names_iff hrows]

theorem get?_of_parse (h : parse listing = .ok refs) :
    refs.get? name = some hash ↔ LastEntry (entryLines listing) name hash := by
  obtain ⟨rows, hrows, rfl⟩ := parse_eq_ok_iff_map.1 h
  rw [Table.get?_ofList_eq_some_iff, lastEntry_iff hrows]

theorem latest_eq_error_iff {branch : String} :
    latest refs branch = .error (.refNotFound (branchRef branch)) ↔
      branchRef branch ∉ refs.keys := by
  rw [← Table.get?_eq_none_iff, latest]
  cases refs.get? (branchRef branch) <;> simp

/-! ## Refs that are printed -/

/-- A ref as a line of a listing, with the end that the line has. -/
structure Printed where
  hash : String
  name : String
  ending : LineEnd

/-- The line itself: the hash, a tab and the name. -/
def Printed.text (p : Printed) : List Char :=
  p.hash.toList ++ '\t' :: p.name.toList

/-- Whether a ref can be told from its line: its name stays on the line and has nothing to trim. -/
structure Printed.Sound (p : Printed) : Prop where
  hexadecimal : Hexadecimal p.hash
  trimmed : trim p.name.toList = p.name.toList
  oneLine : '\n' ∉ p.name.toList

/-- Refs printed line by line. -/
def printed (rows : List Printed) : List Char :=
  rows.flatMap fun p => p.text ++ p.ending.text

variable {p : Printed} {rows : List Printed}

theorem Printed.Sound.entry (h : p.Sound) : Entry p.text p.name p.hash where
  hexadecimal := h.hexadecimal
  layout := by
    refine ⟨[], [], p.name.toList, by simp [Printed.text], nofun, ?_⟩
    rw [h.trimmed, String.ofList_toList]

theorem Printed.Sound.text_whole (h : p.Sound) :
    '\n' ∉ p.text ∧ p.text.getLast? ≠ some '\r' := by
  constructor
  · rw [Printed.text, List.mem_append, List.mem_cons]
    rintro (hmem | hmem | hmem)
    · exact h.hexadecimal.not_mem (by decide) hmem
    · exact absurd hmem (by decide)
    · exact h.oneLine hmem
  · intro hlast
    rw [Printed.text, List.getLast?_append, List.getLast?_cons] at hlast
    cases hname : p.name.toList.getLast? with
    | none =>
        rw [hname] at hlast
        cases hlast
    | some c =>
        rw [hname] at hlast
        cases hlast
        have hbare := trimBy_eq_self_iff.1 h.trimmed
        exact absurd (hbare.back _ hname) (by decide)

theorem Printed.Sound.not_blank (h : p.Sound) : p.text.all isBlank = false := by
  obtain ⟨c, rest, hhash⟩ := List.exists_cons_of_ne_nil
    (mt String.toList_eq_nil_iff.1 h.hexadecimal.1)
  have hc := h.hexadecimal.not_blank c (by rw [hhash]; exact List.mem_cons_self)
  rw [Printed.text, hhash, List.cons_append, List.all_cons, hc, Bool.false_and]

theorem entryLines_printed (h : ∀ p ∈ rows, p.Sound) :
    entryLines (printed rows) = rows.map Printed.text := by
  rw [entryLines, printed, lines_printed Printed.ending rows fun p hp => (h p hp).text_whole,
    List.filter_eq_self]
  intro line hline
  obtain ⟨p, hp, rfl⟩ := List.mem_map.1 hline
  rw [(h p hp).not_blank]
  rfl

theorem parse_printed (h : ∀ p ∈ rows, p.Sound) :
    parse (printed rows) = .ok (Table.ofList (rows.map fun p => (p.name, p.hash))) := by
  rw [parse_eq_ok_iff_map]
  refine ⟨_, ?_, rfl⟩
  rw [entryLines_printed h, List.map_map, List.map_map]
  exact List.map_congr_left fun p hp => ofLine_eq_ok_iff.2 (h p hp).entry

/-- A listing is read exactly if all its lines that are not blank are entries, and one bad line
rejects it. What is read then are the names of the entries, each with the hash of its last one, so
that a branch has the hash of the last entry with its full name, or is not found. Refs with names of
their own that are printed, in whatever order and with whatever ends of the lines, are read back. -/
theorem refs_of_listing (listing : List Char) :
    ((∃ refs, parse listing = .ok refs) ↔
      ∀ line ∈ entryLines listing, ∃ name hash, Entry line name hash) ∧
    (∀ refs, parse listing = .ok refs →
      (∀ name, name ∈ refs.keys ↔ ∃ line ∈ entryLines listing, ∃ hash, Entry line name hash) ∧
      (∀ name hash, refs.get? name = some hash ↔ LastEntry (entryLines listing) name hash) ∧
      ∀ branch,
        (∀ hash, latest refs branch = .ok hash ↔
          LastEntry (entryLines listing) ("refs/heads/" ++ branch) hash) ∧
        (latest refs branch = .error (.refNotFound ("refs/heads/" ++ branch)) ↔
          ∀ line ∈ entryLines listing, ∀ hash, ¬ Entry line ("refs/heads/" ++ branch) hash)) ∧
    ∀ rows : List Printed, (∀ p ∈ rows, p.Sound) → (rows.map Printed.name).Nodup →
      ∃ refs, parse (printed rows) = .ok refs ∧ ∀ name hash,
        refs.get? name = some hash ↔ ∃ p ∈ rows, p.name = name ∧ p.hash = hash := by
  refine ⟨exists_parse_iff, ?_, ?_⟩
  · intro refs h
    refine ⟨fun name => mem_keys_of_parse h, fun name hash => get?_of_parse h, fun branch => ?_⟩
    constructor
    · intro hash
      rw [latest_eq_ok, get?_of_parse h, branchRef]
    · rw [← branchRef, latest_eq_error_iff, mem_keys_of_parse h]
      simp only [not_exists, not_and]
  · intro rows hsound hdistinct
    refine ⟨_, parse_printed hsound, fun name hash => ?_⟩
    have hnodup : ((rows.map fun p => (p.name, p.hash)).map Prod.fst).Nodup := by
      rw [List.map_map]
      exact hdistinct
    rw [Table.get?_ofList_of_nodup hnodup]
    simp only [List.mem_map, Prod.mk.injEq]

-- a tab within a name stays, and of two entries with one name the second counts
example :
    ((parse "0a\tHEAD\r\n\nf1 \trefs/a\tb \n0B\tHEAD".toList).toOption.map fun refs =>
      (refs.get? "HEAD", refs.get? "refs/a\tb", refs.get? "refs/a")) =
    some (some "0B", some "f1", none) := by
  decide +kernel

end DocWatch.Refs
