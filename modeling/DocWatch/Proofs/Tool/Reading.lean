import DocWatch.Proofs.Archive.Documents
import DocWatch.Proofs.Archive.Stored
import DocWatch.Proofs.Text.Trim
import DocWatch.Tool.Documents

/-!
# Reading what is listed

A listing names every document by the path that it is published under, and whoever reads a
document names it by its path again. On the way back the path is treated as any text among the
parameters of a call: white space at its ends is taken away, and then slashes at its front.

The slashes do no harm, since no path that an archive gives has one at its front. The white space
does: a name in an archive may begin with a blank, and the path does so too. Such a path is looked
up without the blank, where another document stands or none. All other paths are looked up as they
are, so the white space decides alone.
-/

namespace DocWatch.Tool

variable {published : Published} {params listing : Json} {now : Time.Instant} {path : String}

/-! ## What is listed and what is read -/

def listedPaths (listing : Json) : List String :=
  match listing.member "files" with
  | .array items => items.filterMap Json.text?
  | _ => []

theorem listedPaths_docsList (h : docsList.plan params published now = .result listing) :
    listedPaths listing = published.snapshot.fileNames := by
  cases h
  have hfiles (commit time count files : Json) :
      (Json.ofMembers [("commit", commit), ("published_at", time), ("count", count),
        ("files", files)]).member "files" = files :=
    rfl
  rw [listedPaths, hfiles, Json.ofStrings]
  exact (List.filterMap_map ..).trans List.filterMap_some

def documentJson (path content : String) : Json :=
  .ofMembers [("file", .string path), ("content", .string content)]

theorem documentJson_inj {other content content' : String}
    (h : documentJson path content = documentJson other content') : path = other :=
  Json.string.inj (congrArg (Json.member · "file") h)

def lookup (published : Published) (path : String) : Plan :=
  match published.snapshot.file? path with
  | some content => .result (documentJson path content)
  | none => .fail (.noDocument path)

theorem docsRead_plan (h : (params.member "file").text? = some path)
    (hne : Text.trimmed path ≠ "") :
    docsRead.plan params published now =
      lookup published (documentPath (Text.trimmed path)) := by
  simp only [docsRead, requiredText, text?, h, if_neg hne]
  rfl

theorem path_of_lookup {other content : String}
    (h : lookup published other = .result (documentJson path content)) : other = path := by
  rw [lookup] at h
  split at h
  · exact documentJson_inj (Plan.result.inj h)
  · cases h

/-! ## Paths of an archive -/

theorem documentPath_eq_self (h : Archive.Canonical path.toList) : documentPath path = path := by
  have hkept : path.toList.dropWhile (· == '/') = path.toList := by
    rw [List.dropWhile_eq_self_iff]
    intro hlen hslash
    refine h.noLeadingSlash ?_
    rw [List.head?_eq_getElem?, List.getElem?_eq_getElem hlen, eq_of_beq hslash]
  rw [documentPath, hkept, String.ofList_toList]

theorem dot_mem_of_hasExtension {extension path : List Char}
    (h : Archive.HasExtension extension path) : '.' ∈ path := by
  obtain ⟨stem, e, hlast, -⟩ := h
  exact Archive.mem_of_mem_piece (List.mem_of_getLast? hlast)
    (List.mem_append_right stem List.mem_cons_self)

theorem trimmed_ne_empty (h : '.' ∈ path.toList) : Text.trimmed path ≠ "" := by
  intro hempty
  have hnil : Text.trim path.toList = [] := by
    rw [Text.trimmed] at hempty
    exact String.ofList_eq_empty_iff.1 hempty
  obtain ⟨front, back, hsplit, hfront, hback⟩ := Text.exists_trim path.toList
  rw [hsplit, hnil, List.append_nil] at h
  have hblank : Text.isBlank '.' = true := (List.mem_append.1 h).elim (hfront _) (hback _)
  exact absurd hblank (by decide)

-- Nothing is ever added, so what is as long as the path is the path itself.
theorem trimmed_of_documentPath (h : documentPath (Text.trimmed path) = path) :
    Text.trimmed path = path := by
  obtain ⟨front, back, hsplit, -, -⟩ := Text.exists_trim path.toList
  have hlist := congrArg (List.length ∘ String.toList) h
  have hdrop := ((Text.trim path.toList).dropWhile_suffix (· == '/')).length_le
  have hlength := congrArg List.length hsplit
  simp only [Function.comp, documentPath, Text.trimmed, String.toList_ofList,
    List.length_append] at hlist hlength
  have hfront : front = [] := List.length_eq_zero_iff.1 (by omega)
  have hback : back = [] := List.length_eq_zero_iff.1 (by omega)
  rw [Text.trimmed]
  rw [hfront, hback, List.nil_append, List.append_nil] at hsplit
  rw [← hsplit, String.ofList_toList]

/-! ## Reading -/

/-- The snapshot holds a document under every listed path. A call that reads the path comes to
this document exactly if there is no white space at the ends of the path; otherwise it is a call
for what is left of the path, which is another one. -/
theorem listed_document_read {f : Archive.Filter} {feed : Archive.Feed} {tree : Tree}
    {listParams : Json} {listTime : Time.Instant} (htree : Archive.extract f feed = .ok tree)
    (hbuild : Snapshot.build tree = .ok published.snapshot)
    (hlist : docsList.plan listParams published listTime = .result listing)
    (hlisted : path ∈ listedPaths listing) (hparams : (params.member "file").text? = some path) :
    ∃ content, published.snapshot.file? path = some content ∧
      (docsRead.plan params published now = .result (documentJson path content) ↔
        Text.trimmed path = path) ∧
      (Text.trimmed path ≠ path → documentPath (Text.trimmed path) ≠ path ∧
        docsRead.plan params published now =
          lookup published (documentPath (Text.trimmed path))) := by
  rw [listedPaths_docsList hlist, Snapshot.fileNames_of_build hbuild] at hlisted
  obtain ⟨m, haccepts⟩ := Archive.exists_accepts_of_extract htree hlisted
  have hplan : docsRead.plan params published now =
      lookup published (documentPath (Text.trimmed path)) :=
    docsRead_plan hparams (trimmed_ne_empty (dot_mem_of_hasExtension haccepts.extension))
  obtain ⟨data, hdata⟩ := Option.ne_none_iff_exists'.1
    fun hnone => Table.get?_eq_none_iff.1 hnone hlisted
  have hfile : published.snapshot.file? path = some (Snapshot.textOf data) := by
    rw [Snapshot.file?_of_build hbuild, Tree.get?, hdata, Option.map_some]
  refine ⟨_, hfile, ⟨fun hread => ?_, fun htrimmed => ?_⟩, fun hne => ⟨?_, hplan⟩⟩
  · exact trimmed_of_documentPath (path_of_lookup (hplan.symm.trans hread))
  · rw [hplan, htrimmed, documentPath_eq_self haccepts.canonical, lookup, hfile]
  · exact fun heq => hne (trimmed_of_documentPath heq)

/-- The header of a document of two bytes whose path begins with a blank. -/
def spacedHeader : Archive.Tar.Header where
  bytes :=
    let zeros (n : Nat) : Bytes := List.replicate n 0
    Text.encode "docs-main/docs/ a.md".toList ++ zeros 80 ++ Text.encode "0000644".toList ++
      zeros 17 ++ Text.encode "00000000002".toList ++ zeros 13 ++
      Text.encode "005642".toList ++ [0, 32, 48] ++ zeros 355

def spacedArchive : Archive.Feed :=
  [.data (Archive.Gzip.stored (Archive.Tar.single spacedHeader (Text.encode "hi".toList)))]

def spacedTree : Tree :=
  .ofDocuments [⟨" a.md", Text.encode "hi".toList⟩]

def spacedCall : Json :=
  .object [("file", .string " a.md")]

theorem extract_spacedArchive : Archive.extract .standard spacedArchive = .ok spacedTree := by
  have hfile : spacedHeader.PlainFile 2 := by
    constructor <;> decide +kernel
  exact Archive.extract_single (by decide +kernel) (by decide +kernel) hfile (by decide)
    (by decide +kernel) (by decide) (by decide)

theorem exists_spacedListing : ∃ snapshot listing,
    Snapshot.build spacedTree = .ok snapshot ∧
      docsList.plan .null (.ofSnapshot snapshot "b0") ⟨0, 0⟩ = .result listing ∧
      listedPaths listing = [" a.md"] := by
  obtain ⟨snapshot, hbuild⟩ : ∃ snapshot, Snapshot.build spacedTree = .ok snapshot :=
    Snapshot.exists_build (by decide +kernel)
  obtain ⟨listing, hlist⟩ : ∃ listing,
      docsList.plan .null (.ofSnapshot snapshot "b0") ⟨0, 0⟩ = .result listing := ⟨_, rfl⟩
  refine ⟨snapshot, listing, hbuild, hlist, ?_⟩
  rw [listedPaths_docsList hlist]
  show snapshot.fileNames = _
  rw [Snapshot.fileNames_of_build hbuild]
  decide +kernel

theorem documentPath_spaced : documentPath (Text.trimmed " a.md") = "a.md" := by
  decide +kernel

theorem listed_document_read_of_spaced : ∃ snapshot listing content,
    Snapshot.build spacedTree = .ok snapshot ∧
      docsList.plan .null (.ofSnapshot snapshot "b0") ⟨0, 0⟩ = .result listing ∧
      " a.md" ∈ listedPaths listing ∧ snapshot.file? " a.md" = some content ∧
      docsRead.plan spacedCall (.ofSnapshot snapshot "b0") ⟨0, 0⟩ ≠
        .result (documentJson " a.md" content) ∧
      docsRead.plan spacedCall (.ofSnapshot snapshot "b0") ⟨0, 0⟩ =
        lookup (.ofSnapshot snapshot "b0") "a.md" := by
  obtain ⟨snapshot, listing, hbuild, hlist, hpaths⟩ := exists_spacedListing
  have hlisted : " a.md" ∈ listedPaths listing := by
    rw [hpaths]
    exact List.mem_cons_self
  have hcall : (spacedCall.member "file").text? = some " a.md" := rfl
  obtain ⟨content, hfile, hread, hother⟩ :=
    listed_document_read extract_spacedArchive hbuild hlist hlisted hcall
  have hblank : Text.trimmed " a.md" ≠ " a.md" := by decide +kernel
  refine ⟨snapshot, listing, content, hbuild, hlist, hlisted, hfile,
    fun h => hblank (hread.1 h), ?_⟩
  rw [← documentPath_spaced]
  exact (hother hblank).2

/-- The document is published and listed, and a call with its path does not find it. -/
theorem listed_document_missed : ∃ snapshot listing,
    Archive.extract .standard spacedArchive = .ok spacedTree ∧
      Snapshot.build spacedTree = .ok snapshot ∧
      docsList.plan .null (.ofSnapshot snapshot "b0") ⟨0, 0⟩ = .result listing ∧
      listedPaths listing = [" a.md"] ∧ snapshot.file? " a.md" = some "hi" ∧
      docsRead.plan spacedCall (.ofSnapshot snapshot "b0") ⟨0, 0⟩ = .fail (.noDocument "a.md") := by
  obtain ⟨snapshot, listing, hbuild, hlist, hpaths⟩ := exists_spacedListing
  have hnone : snapshot.file? "a.md" = none := by
    rw [Snapshot.file?_of_build hbuild]
    decide +kernel
  refine ⟨snapshot, listing, extract_spacedArchive, hbuild, hlist, hpaths, ?_, ?_⟩
  · rw [Snapshot.file?_of_build hbuild]
    decide +kernel
  · rw [docsRead_plan rfl (by decide +kernel), documentPath_spaced, lookup]
    show (match snapshot.file? "a.md" with | some _ => _ | none => _) = _
    rw [hnone]

end DocWatch.Tool
