import DocWatch.Archive.Extract
import DocWatch.Proofs.Text.Utf8
import DocWatch.Proofs.Tree
import DocWatch.Snapshot

/-!
# What the fingerprint can tell apart

The bytes under the fingerprint are those of the documents one after the other, and
whoever reads them back has to find out where a path ends. The contents come behind their
length, which takes eight bytes whatever it is, so once the path is known there is no
choice left. The path ends at a zero byte, and that is its end only as long as no path has
a zero byte of its own.

A path that has one can be read in two ways: as itself, or as the path in front of the
zero byte, with a length and contents behind it. `Confusable` says that two trees have
paths of this kind, and it is the only way for them to give the same bytes. There is such
a pair, and both of its trees come out of archives.
-/

namespace DocWatch.Snapshot

open Text

variable {d d' : Document} {t t' : Tree} {s s' : Snapshot} {rest rest' : Bytes} {n m : Nat}

/-! ## The length in front of the contents -/

theorem length_lengthBytes (n : Nat) : (lengthBytes n).length = 8 := by
  rw [lengthBytes, List.length_map, List.length_range]

theorem mod_eq_of_digits {k : Nat} (h : ∀ i < k, n / 256 ^ i % 256 = m / 256 ^ i % 256) :
    n % 256 ^ k = m % 256 ^ k := by
  induction k with
  | zero => simp [Nat.mod_one]
  | succ k ih =>
      rw [Nat.mod_pow_succ, Nat.mod_pow_succ, h k (Nat.lt_succ_self k),
        ih fun i hi => h i (Nat.lt_succ_of_lt hi)]

/-- Eight bytes are enough for any length that fits a machine word. -/
theorem lengthBytes_injective (hn : n < 2 ^ 64) (hm : m < 2 ^ 64)
    (h : lengthBytes n = lengthBytes m) : n = m := by
  have hdigits : ∀ i < 8, n / 256 ^ i % 256 = m / 256 ^ i % 256 := by
    intro i hi
    have hbyte := congrArg UInt8.toNat (List.map_inj_left.1 h i (List.mem_range.2 hi))
    rw [UInt8.toNat_ofNat', UInt8.toNat_ofNat'] at hbyte
    exact hbyte
  have hmod := mod_eq_of_digits hdigits
  rw [Nat.mod_eq_of_lt (by omega), Nat.mod_eq_of_lt (by omega)] at hmod
  exact hmod

/-- Behind the path there is one way to read on. -/
theorem data_eq_of_append_eq (hd : d.data.length < 2 ^ 64) (hd' : d'.data.length < 2 ^ 64)
    (h : lengthBytes d.data.length ++ (d.data ++ rest) =
      lengthBytes d'.data.length ++ (d'.data ++ rest')) :
    d.data = d'.data ∧ rest = rest' := by
  obtain ⟨hlength, hbytes⟩ := List.append_inj h (by rw [length_lengthBytes, length_lengthBytes])
  exact List.append_inj hbytes (lengthBytes_injective hd hd' hlength)

/-! ## The end of the path -/

/-- A path that goes on where another one ends, behind a zero byte. -/
def Continues (path longer : String) : Prop :=
  ∃ more, longer.toList = path.toList ++ Char.ofNat 0 :: more

theorem nul_of_encode {u : List Char} (h : encode u = 0 :: rest) :
    ∃ more, u = Char.ofNat 0 :: more := by
  have hnul : encode u = encode [Char.ofNat 0] ++ rest := h
  obtain ⟨more, hmore, -⟩ := exists_of_encode_eq_append hnul
  exact ⟨more, hmore⟩

/-- A path that is read up to a zero byte is the whole path, or goes on behind it. -/
theorem eq_or_continues {path longer : String} {a : Bytes}
    (hlonger : encode longer.toList = encode path.toList ++ a)
    (h : 0 :: rest = a ++ 0 :: rest') :
    (path = longer ∧ rest = rest') ∨ Continues path longer := by
  obtain ⟨u, hu, rfl⟩ := exists_of_encode_eq_append hlonger
  cases ha : encode u with
  | nil =>
      have hnil : u = [] := encode_injective ha
      rw [ha, List.nil_append, List.cons.injEq] at h
      rw [hnil, List.append_nil] at hu
      exact .inl ⟨String.toList_inj.1 hu.symm, h.2⟩
  | cons b back =>
      rw [ha, List.cons_append, List.cons.injEq] at h
      rw [← h.1] at ha
      obtain ⟨more, rfl⟩ := nul_of_encode ha
      exact .inr ⟨more, hu⟩

/-! ## One document -/

theorem framed_append (d : Document) (rest : Bytes) :
    framed d ++ rest =
      encode d.path.toList ++ 0 :: (lengthBytes d.data.length ++ (d.data ++ rest)) := by
  simp only [framed, List.append_assoc, List.cons_append]

theorem eq_or_continues_of_framed (hd : d.data.length < 2 ^ 64)
    (hd' : d'.data.length < 2 ^ 64) (h : framed d ++ rest = framed d' ++ rest') :
    (d = d' ∧ rest = rest') ∨ Continues d.path d'.path ∨ Continues d'.path d.path := by
  rw [framed_append, framed_append] at h
  obtain ⟨a, hlonger, hback⟩ | ⟨a, hlonger, hback⟩ := List.append_eq_append_iff.1 h
  · obtain ⟨hpath, hbytes⟩ | hcontinues := eq_or_continues hlonger hback
    · obtain ⟨hdata, hrest⟩ := data_eq_of_append_eq hd hd' hbytes
      cases d
      cases d'
      exact .inl ⟨congrArg₂ Document.mk hpath hdata, hrest⟩
    · exact .inr (.inl hcontinues)
  · obtain ⟨hpath, hbytes⟩ | hcontinues := eq_or_continues hlonger hback
    · obtain ⟨hdata, hrest⟩ := data_eq_of_append_eq hd' hd hbytes
      cases d
      cases d'
      exact .inl ⟨congrArg₂ Document.mk hpath.symm hdata.symm, hrest.symm⟩
    · exact .inr (.inr hcontinues)

/-! ## All documents -/

/-- Two trees with a path of one that goes on where a path of the other ends. -/
def Confusable (t t' : Tree) : Prop :=
  ∃ d ∈ t.documents, ∃ d' ∈ t'.documents, Continues d.path d'.path ∨ Continues d'.path d.path

theorem framed_ne_nil (d : Document) : framed d ≠ [] := by
  rw [← List.append_nil (framed d), framed_append]
  exact List.append_ne_nil_of_right_ne_nil _ (List.cons_ne_nil _ _)

/-- Document by document, the same bytes are read in the same way. -/
theorem eq_or_continues_of_flatMap {ds ds' : List Document}
    (hds : ∀ d ∈ ds, d.data.length < 2 ^ 64) (hds' : ∀ d ∈ ds', d.data.length < 2 ^ 64)
    (h : ds.flatMap framed = ds'.flatMap framed) :
    ds = ds' ∨ ∃ d ∈ ds, ∃ d' ∈ ds', Continues d.path d'.path ∨ Continues d'.path d.path := by
  induction ds generalizing ds' with
  | nil =>
      cases ds' with
      | nil => exact .inl rfl
      | cons d' more' => exact absurd (List.append_eq_nil_iff.1 h.symm).1 (framed_ne_nil d')
  | cons d more ih =>
      cases ds' with
      | nil => exact absurd (List.append_eq_nil_iff.1 h).1 (framed_ne_nil d)
      | cons d' more' =>
          obtain ⟨hd, hmore⟩ := List.forall_mem_cons.1 hds
          obtain ⟨hd', hmore'⟩ := List.forall_mem_cons.1 hds'
          obtain ⟨rfl, hrest⟩ | hcontinues := eq_or_continues_of_framed hd hd' h
          · obtain rfl | ⟨e, he, e', he', hcontinues⟩ := ih hmore hmore' hrest
            · exact .inl rfl
            · exact .inr ⟨e, List.mem_cons_of_mem _ he, e', List.mem_cons_of_mem _ he', hcontinues⟩
          · exact .inr ⟨d, List.mem_cons_self, d', List.mem_cons_self, hcontinues⟩

theorem Continues.nul_mem {path longer : String} (h : Continues path longer) :
    Char.ofNat 0 ∈ longer.toList := by
  obtain ⟨more, hmore⟩ := h
  rw [hmore]
  exact List.mem_append_right _ List.mem_cons_self

/-- Only a path with a zero byte of its own can be read in two ways. -/
theorem Confusable.exists_nul (h : Confusable t t') :
    ∃ d ∈ t.documents ++ t'.documents, Char.ofNat 0 ∈ d.path.toList := by
  obtain ⟨d, hd, d', hd', hcontinues | hcontinues⟩ := h
  · exact ⟨d', List.mem_append_right _ hd', hcontinues.nul_mem⟩
  · exact ⟨d, List.mem_append_left _ hd, hcontinues.nul_mem⟩

theorem fingerprint_of_build (h : build t = .ok s) :
    s.fingerprint = Digest.sha256Hex (fingerprintInput t) := by
  obtain ⟨index, -, rfl⟩ := build_eq_ok_iff.1 h
  rfl

/-- Different bytes with one digest. -/
def Collision (a b : Bytes) : Prop :=
  a ≠ b ∧ Digest.sha256Hex a = Digest.sha256Hex b

/-- The bytes under the fingerprint tell the documents, unless there are paths that can be
read in two ways; and then the fingerprints tell them, unless the digest collides. -/
theorem fingerprint_tracks_documents (ht : t.Sound) (ht' : t'.Sound)
    (hsize : ∀ d ∈ t.documents, d.data.length < 2 ^ 64)
    (hsize' : ∀ d ∈ t'.documents, d.data.length < 2 ^ 64)
    (hbuild : build t = .ok s) (hbuild' : build t' = .ok s') :
    (fingerprintInput t = fingerprintInput t' →
      (∀ d, d ∈ t.documents ↔ d ∈ t'.documents) ∨ Confusable t t') ∧
    (¬ Confusable t t' →
      (s.fingerprint = s'.fingerprint ↔ (∀ d, d ∈ t.documents ↔ d ∈ t'.documents) ∨
        Collision (fingerprintInput t) (fingerprintInput t'))) ∧
    (Confusable t t' → ∃ d ∈ t.documents ++ t'.documents, Char.ofNat 0 ∈ d.path.toList) := by
  have hinput : fingerprintInput t = fingerprintInput t' →
      (∀ d, d ∈ t.documents ↔ d ∈ t'.documents) ∨ Confusable t t' := by
    intro h
    obtain hdocuments | hconfusable := eq_or_continues_of_flatMap hsize hsize' h
    · exact .inl fun d => iff_of_eq (congrArg (d ∈ ·) hdocuments)
    · exact .inr hconfusable
  refine ⟨hinput, fun hclear => ?_, Confusable.exists_nul⟩
  rw [fingerprint_of_build hbuild, fingerprint_of_build hbuild']
  constructor
  · intro hdigest
    by_cases heq : fingerprintInput t = fingerprintInput t'
    · exact .inl ((hinput heq).resolve_right hclear)
    · exact .inr ⟨heq, hdigest⟩
  · intro h
    obtain hsame | hcollision := h
    · rw [fingerprintInput, fingerprintInput, ht.documents_eq ht' hsame]
    · exact hcollision.2

/-- A tree of one document. -/
def single (path : String) (data : Bytes) : Tree :=
  .ofDocuments [⟨path, data⟩]

theorem fingerprint_tracks_edit : ∃ s s',
    build (single "a.md" [1]) = .ok s ∧ build (single "a.md" [2]) = .ok s' ∧
    (s.fingerprint = s'.fingerprint ↔
      (∀ d, d ∈ (single "a.md" [1]).documents ↔ d ∈ (single "a.md" [2]).documents) ∨
      Collision (fingerprintInput (single "a.md" [1])) (fingerprintInput (single "a.md" [2]))) := by
  obtain ⟨s, hs⟩ : ∃ s, build (single "a.md" [1]) = .ok s := exists_build (by decide +kernel)
  obtain ⟨s', hs'⟩ : ∃ s', build (single "a.md" [2]) = .ok s' := exists_build (by decide +kernel)
  have hclear : ¬ Confusable (single "a.md" [1]) (single "a.md" [2]) := by
    intro h
    obtain ⟨d, hd, hnul⟩ := h.exists_nul
    revert d
    decide +kernel
  refine ⟨s, s', hs, hs', ?_⟩
  exact (fingerprint_tracks_documents (Tree.sound_ofDocuments _) (Tree.sound_ofDocuments _)
    (by decide +kernel) (by decide +kernel) hs hs').2.1 hclear

/-! ## Two archives with one fingerprint -/

/-- Contents that begin like a path. -/
def pathLike : List Char :=
  "x.md".toList ++ List.replicate 9 (Char.ofNat 0)

/-- A path that goes on behind a zero byte with what reads as a length of thirteen, and
then with another path. -/
def twofold : List Char :=
  "a.md".toList ++ Char.ofNat 0 :: Char.ofNat 13 :: List.replicate 7 (Char.ofNat 0) ++ "x.md".toList

theorem fingerprint_of_twofold :
    Archive.Listing.extract .standard
        ⟨[⟨"docs-main/docs/a.md", true, 13, .read (encode pathLike)⟩], none⟩ =
      .ok (single "a.md" (encode pathLike)) ∧
    Archive.Listing.extract .standard
        ⟨[⟨String.ofList ("docs-main/docs/".toList ++ twofold), true, 0, .read []⟩], none⟩ =
      .ok (single (String.ofList twofold) []) ∧
    (single "a.md" (encode pathLike)).documents ≠ (single (String.ofList twofold) []).documents ∧
    ∃ s s', build (single "a.md" (encode pathLike)) = .ok s ∧
      build (single (String.ofList twofold) []) = .ok s' ∧ s.fingerprint = s'.fingerprint := by
  obtain ⟨s, hs⟩ : ∃ s, build (single "a.md" (encode pathLike)) = .ok s :=
    exists_build (by decide +kernel)
  obtain ⟨s', hs'⟩ : ∃ s', build (single (String.ofList twofold) []) = .ok s' :=
    exists_build (by decide +kernel)
  have hinput : fingerprintInput (single "a.md" (encode pathLike)) =
      fingerprintInput (single (String.ofList twofold) []) := by
    decide +kernel
  refine ⟨by decide +kernel, by decide +kernel, by decide +kernel, s, s', hs, hs', ?_⟩
  rw [fingerprint_of_build hs, fingerprint_of_build hs', hinput]

end DocWatch.Snapshot
