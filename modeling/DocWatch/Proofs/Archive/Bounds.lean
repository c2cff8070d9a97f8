import Mathlib.Data.Finset.Card
import DocWatch.Proofs.Archive.Account

/-!
# The bounds of an extraction

Two bounds hold for an archive: one on the bytes of its documents, with those that
are replaced later counted as well, and one on the number of documents.

The first is exact. An extraction is given up for its bytes at the first document
that would take the sum over the bound, whatever the contents of that document
are, and never for another reason. The second is not quite: it is looked at
before a document is taken, at a time when it is not known whether the document is
a new one. Once the tree is full any further document is one too many, even one
that would only take the place of another.
-/

namespace DocWatch.Archive

variable {f : Filter}

/-! ## Bytes -/

theorem ReadError.fault_ne_sizeLimit {x : Excess} (hx : ∀ limit, x ≠ .received limit)
    (r : ReadError) : r.fault ≠ .sizeLimit x := by
  cases r with
  | other detail => nofun
  | abort cause =>
      cases cause with
      | tooLarge limit => exact fun h => hx limit (by cases h; rfl)
      | transport | cancelled => nofun

/-- A failure for a bound that the extraction itself looks at comes from a member. -/
theorem Listing.stop_of_excess {l : Listing} {x : Excess}
    (hx : ∀ limit, x ≠ .received limit) (h : l.extract f = .error (.sizeLimit x)) :
    ∃ before m after p, l.members = before ++ m :: after ∧ f.Reaches before p ∧
      p.Stop f m (.sizeLimit x) := by
  generalize hfault : Fault.sizeLimit x = e at h ⊢
  cases fails_of_extract h with
  | stopped split hreaches stop => exact ⟨_, _, _, _, split, hreaches, stop⟩
  | broken => exact absurd hfault.symm (ReadError.fault_ne_sizeLimit hx _)
  | empty => cases hfault

namespace Progress

variable {p : Progress} {m : Member}

theorem Stop.of_extracted {soFar size limit : Nat} {name : String}
    (h : p.Stop f m (.sizeLimit (.extracted soFar name size limit))) :
    f.Accepted m ∧ f.maxBytes - p.extracted < m.size := by
  generalize hfault : Fault.sizeLimit (.extracted soFar name size limit) = e at h
  cases h with
  | tooLarge accepted hlarge => exact ⟨accepted, hlarge⟩
  | broken => exact absurd hfault.symm (ReadError.fault_ne_sizeLimit (by simp) _)
  | tooMany | truncated => cases hfault

theorem Stop.of_documents {n : Nat}
    (h : p.Stop f m (.sizeLimit (.documents n))) :
    n = f.maxFiles ∧ f.Accepted m ∧ m.size ≤ f.maxBytes - p.extracted ∧
      f.maxFiles ≤ p.tree.size := by
  generalize hfault : Fault.sizeLimit (.documents n) = e at h
  cases h with
  | tooMany accepted fits hmany =>
      cases hfault
      exact ⟨rfl, accepted, fits, hmany⟩
  | broken => exact absurd hfault.symm (ReadError.fault_ne_sizeLimit (by simp) _)
  | tooLarge | truncated => cases hfault

end Progress

/-- The sizes of all documents so far stay within the bound on bytes, and the first
document that would take them over it ends the extraction. -/
theorem within_bounds (f : Filter) (l : Listing) :
    (∀ before p, f.Reaches before p →
      p.extracted = f.declaredSize before ∧ p.extracted ≤ f.maxBytes ∧
        p.tree.held ≤ p.extracted) ∧
    (∀ before m after p, l.members = before ++ m :: after → f.Reaches before p →
      f.Accepted m → f.maxBytes < f.declaredSize before + m.size →
      l.extract f =
        .error (.sizeLimit (.extracted (f.declaredSize before) m.name m.size f.maxBytes))) ∧
    (∀ soFar name size limit,
      l.extract f = .error (.sizeLimit (.extracted soFar name size limit)) →
      ∃ before m after p, l.members = before ++ m :: after ∧ f.Reaches before p ∧
        f.Accepted m ∧ f.maxBytes < f.declaredSize before + m.size) ∧
    ∀ tree, l.extract f = .ok tree →
      tree.totalBytes ≤ f.maxBytes ∧ tree.size ≤ f.maxFiles := by
  refine ⟨fun before p hreaches => ?_, fun before m after p hsplit hreaches hm hover => ?_,
    fun soFar name size limit h => ?_, fun tree htree => ?_⟩
  · have haccounts := hreaches.accounts
    exact ⟨haccounts.extracted_eq, haccounts.extracted_le, haccounts.held_le⟩
  · -- What is left of the bound is a true difference, so it is exceeded.
    have hle := hreaches.accounts.extracted_le
    rw [← hreaches.accounts.extracted_eq] at hover ⊢
    exact Listing.extract_of_next hsplit hreaches
      (Progress.next_of_tooLarge hm (by omega))
  · obtain ⟨before, m, after, p, hsplit, hreaches, hstop⟩ :=
      Listing.stop_of_excess (by simp) h
    obtain ⟨hm, hlarge⟩ := hstop.of_extracted
    have hextracted := hreaches.accounts.extracted_eq
    exact ⟨before, m, after, p, hsplit, hreaches, hm, by omega⟩
  · obtain ⟨p, hreaches, -, -, rfl⟩ := Listing.extract_eq_ok_iff.1 htree
    have haccounts := hreaches.accounts
    have htotal := haccounts.sound.totalBytes_eq
    have hheld := haccounts.held_le
    have hextracted := haccounts.extracted_le
    exact ⟨by omega, haccounts.size_le⟩

/-- Two documents of five bytes each. -/
def pair : Listing where
  members := [⟨"docs-main/docs/a.md", true, 5, .read [49, 50, 51, 52, 53]⟩,
    ⟨"docs-main/docs/b.md", true, 5, .read [54, 55, 56, 57, 48]⟩]
  ending := none

theorem pair_within_ten_but_not_nine :
    (∃ tree, pair.extract ⟨"docs", "md", 10, 2⟩ = .ok tree ∧ tree.totalBytes ≤ 10 ∧
      tree.size ≤ 2) ∧
    pair.extract ⟨"docs", "md", 9, 2⟩ =
      .error (.sizeLimit (.extracted 5 "docs-main/docs/b.md" 5 9)) :=
  ⟨⟨_, rfl, (within_bounds ⟨"docs", "md", 10, 2⟩ pair).2.2.2 _ rfl⟩,
    (within_bounds ⟨"docs", "md", 9, 2⟩ pair).2.1 [_] _ [] _ rfl rfl (by decide)
      (by decide)⟩

/-! ## Documents -/

/-- The paths of the documents among members. -/
def Filter.paths (f : Filter) (ms : List Member) : Finset String :=
  (ms.filterMap f.pathOf?).toFinset

theorem Filter.mem_paths {ms : List Member} {path : String} :
    path ∈ f.paths ms ↔ ∃ m ∈ ms, f.Accepts m path := by
  simp [paths, Filter.pathOf?_eq_some_iff]

theorem Progress.Accounts.size_eq_card {p : Progress} {ms : List Member}
    (h : p.Accounts f ms) : p.tree.size = (f.paths ms).card := by
  have hpaths : p.tree.paths.toFinset = f.paths ms := by
    ext path
    rw [List.mem_toFinset, h.mem_paths, Filter.mem_paths]
  rw [← hpaths, List.toFinset_card_of_nodup h.sound.nodup_paths, Tree.length_paths]

theorem Filter.declaredSize_le_append (before after : List Member) :
    f.declaredSize before ≤ f.declaredSize (before ++ after) := by
  rw [declaredSize_append]
  exact Nat.le_add_right _ _

theorem Filter.declaredSize_concat {before : List Member} {m : Member} (h : f.Accepted m) :
    f.declaredSize (before ++ [m]) = f.declaredSize before + m.size := by
  rw [declaredSize_append, declaredSize_singleton h]

/-- Of members whose documents can all be taken but for their number, the
extraction goes past all, or it fails for the number of documents. -/
theorem Filter.reaches_or_documents {ms : List Member}
    (hwhole : ∀ m ∈ ms, f.Accepted m → m.Whole) (hsize : f.declaredSize ms ≤ f.maxBytes) :
    (∃ p, f.Reaches ms p) ∨
      Progress.start.takeAll f ms = .error (.sizeLimit (.documents f.maxFiles)) := by
  cases htake : Progress.start.takeAll f ms with
  | ok p => exact Or.inl ⟨p, htake⟩
  | error e =>
      obtain ⟨before, m, after, q, rfl, hbefore, hstop⟩ := Progress.stop_of_takeAll htake
      have hq : f.Reaches before q := hbefore
      cases hstop with
      | tooMany => exact Or.inr rfl
      | tooLarge hm hlarge =>
          -- The sum up to this member is a part of the whole sum.
          have hle := f.declaredSize_le_append (before ++ [m]) after
          rw [List.append_assoc, List.singleton_append, Filter.declaredSize_concat hm,
            ← hq.accounts.extracted_eq] at hle
          omega
      | broken hm _ _ hbroken =>
          obtain ⟨bytes, hread, -⟩ := hwhole m (by simp) hm
          rw [hbroken] at hread
          cases hread
      | truncated hm _ _ hread hshort =>
          obtain ⟨bytes, hread', hlength⟩ := hwhole m (by simp) hm
          rw [hread] at hread'
          cases hread'
          exact absurd hlength hshort

/-- A document that comes to a full tree, while nothing before it and nothing in
its size ends the extraction. -/
structure Filter.Overflows (f : Filter) (before : List Member) (m : Member) : Prop where
  whole : ∀ m' ∈ before, f.Accepted m' → m'.Whole
  accepted : f.Accepted m
  fits : f.declaredSize before + m.size ≤ f.maxBytes
  full : f.maxFiles ≤ (f.paths before).card

namespace Listing

variable {l : Listing}

theorem overflows_of_extract {n : Nat}
    (h : l.extract f = .error (.sizeLimit (.documents n))) :
    n = f.maxFiles ∧
      ∃ before m after, l.members = before ++ m :: after ∧ f.Overflows before m := by
  obtain ⟨before, m, after, p, hsplit, hreaches, hstop⟩ := stop_of_excess (by simp) h
  obtain ⟨rfl, hm, hfits, hfull⟩ := hstop.of_documents
  have haccounts := hreaches.accounts
  have hextracted := haccounts.extracted_eq
  have hle := haccounts.extracted_le
  rw [haccounts.size_eq_card] at hfull
  exact ⟨rfl, before, m, after, hsplit, haccounts.whole, hm, by omega, hfull⟩

theorem extract_of_overflows {before after : List Member} {m : Member}
    (hsplit : l.members = before ++ m :: after) (h : f.Overflows before m) :
    l.extract f = .error (.sizeLimit (.documents f.maxFiles)) := by
  have hfits := h.fits
  rcases Filter.reaches_or_documents h.whole (by omega) with ⟨p, hreaches⟩ | hearlier
  · have haccounts := hreaches.accounts
    have hextracted := haccounts.extracted_eq
    have hfull := h.full
    rw [← haccounts.size_eq_card] at hfull
    exact extract_of_next hsplit hreaches
      (Progress.next_of_tooMany h.accepted (by omega) hfull)
  · -- The tree was full before, and another document has come to it already.
    rw [extract, hsplit, Progress.takeAll_append, hearlier]
    rfl

theorem mem_paths_of_full {before after : List Member} {m : Member} {path : String}
    (hfew : (f.paths l.members).card ≤ f.maxFiles)
    (hsplit : l.members = before ++ m :: after) (hm : f.Accepts m path)
    (hfull : f.maxFiles ≤ (f.paths before).card) : path ∈ f.paths before := by
  by_contra hnew
  have hsub : insert path (f.paths before) ⊆ f.paths l.members := by
    intro other hother
    rw [Filter.mem_paths, hsplit]
    rcases Finset.mem_insert.1 hother with rfl | hother
    · exact ⟨m, by simp, hm⟩
    · obtain ⟨m', hm', haccepts⟩ := Filter.mem_paths.1 hother
      exact ⟨m', by simp [hm'], haccepts⟩
  have hcard := Finset.card_le_card hsub
  rw [Finset.card_insert_of_notMem hnew] at hcard
  omega

end Listing

/-- When an extraction fails for the number of documents. In an archive with no
more paths than allowed, it is a document that would have replaced another one. -/
theorem too_many_documents_iff (f : Filter) (l : Listing) (n : Nat) :
    (l.extract f = .error (.sizeLimit (.documents n)) ↔ n = f.maxFiles ∧
      ∃ before m after, l.members = before ++ m :: after ∧ f.Overflows before m) ∧
    ((f.paths l.members).card ≤ f.maxFiles →
      ∀ before m after path, l.members = before ++ m :: after →
        f.Overflows before m → f.Accepts m path → path ∈ f.paths before) := by
  refine ⟨⟨Listing.overflows_of_extract, ?_⟩, ?_⟩
  · rintro ⟨rfl, before, m, after, hsplit, h⟩
    exact Listing.extract_of_overflows hsplit h
  · intro hfew before m after path hsplit h hm
    exact Listing.mem_paths_of_full hfew hsplit hm h.full

/-- Room for one document, and one document that comes twice. -/
def single : Filter := ⟨"docs", "md", 100, 1⟩

def twice : Listing where
  members := [⟨"docs-main/docs/a.md", true, 3, .read [111, 110, 101]⟩,
    ⟨"docs-main/docs/a.md", true, 3, .read [116, 119, 111]⟩]
  ending := none

theorem replacement_is_one_too_many :
    (single.paths twice.members).card ≤ single.maxFiles ∧
      twice.extract single = .error (.sizeLimit (.documents 1)) :=
  ⟨by decide, rfl⟩

theorem stopped_at_replacement :
    ∃ before m after path, twice.members = before ++ m :: after ∧
      single.Overflows before m ∧ single.Accepts m path ∧ path ∈ single.paths before := by
  obtain ⟨hiff, hreplaces⟩ := too_many_documents_iff single twice 1
  obtain ⟨-, before, m, after, hsplit, hoverflows⟩ := hiff.1 rfl
  obtain ⟨path, hm⟩ := hoverflows.accepted
  exact ⟨before, m, after, path, hsplit, hoverflows, hm,
    hreplaces (by decide) before m after path hsplit hoverflows hm⟩

end DocWatch.Archive
