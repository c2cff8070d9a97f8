import DocWatch.Mcp.Bridge
import DocWatch.Proofs.Net.Path
import DocWatch.Proofs.Net.Template
import DocWatch.Proofs.Service

/-!
# Documents behind their addresses

The template of the documents turns a path into an address. What is looked up for
that address is always a plain path: relative, without steps, and with nothing in it
that an address would have to escape, or that would end the path of one. So a
document is found behind its address just if its own path is plain. Any other path
is escaped, cut off or shortened on the way, and nobody takes that back: the address
leads elsewhere, and what is read there has nothing to do with the document.
-/

namespace DocWatch.Mcp

open Net

/-- The address of a document by the template. -/
def documentUri (path : String) : String :=
  String.ofList (Template.fill "file".toList path.toList documentTemplate.toList)

/-- A path that an address can hold as it is. -/
structure Plain (path : List Char) : Prop where
  relative : ∃ c rest, path = c :: rest ∧ c ≠ '/'
  literal : Template.isLiteral path = true
  unended : ∀ c ∈ path, c ≠ '?' ∧ c ≠ '#'
  steady : ∀ segment ∈ Text.splitBy (· = '/') path,
    Url.isHere segment = false ∧ Url.isUp segment = false

/-- The path that is looked up for the address of a document. -/
def lookedUp (path : List Char) : List Char :=
  filePart (Url.readPath false ('/' :: Template.expanded path))

/-! ## Taking the address apart -/

theorem documentUri_toList (path : String) :
    (documentUri path).toList =
      "prometheus://docs/".toList ++ Template.expanded path.toList := by
  rw [documentUri, String.toList_ofList]
  change "prometheus://docs/".toList ++ Template.expanded path.toList ++ [] = _
  rw [List.append_nil]

theorem parse_documentUri (path : String) :
    Url.parse (documentUri path) =
      .ok ⟨resourceScheme, some resourceHost,
        Url.readPath false ('/' :: Template.expanded path.toList)⟩ := by
  have hclean : Url.cleaned (documentUri path).toList = (documentUri path).toList := by
    refine Url.cleaned_eq_self fun c hc => ?_
    rw [documentUri_toList, List.mem_append] at hc
    rcases hc with hc | hc
    · have hfront : "prometheus://docs/".toList.all (32 < ·.toNat) = true := by decide
      exact of_decide_eq_true (List.all_eq_true.1 hfront c hc)
    · rcases Template.copied_of_isLiteral (Template.isLiteral_expanded _) c hc with rfl | hcopied
      · decide
      · exact (Template.toNat_of_isCopied hcopied).1
  have hscheme : Url.scheme? (documentUri path).toList =
      some ("prometheus".toList, "//docs/".toList ++ Template.expanded path.toList) := by
    rw [documentUri_toList]
    rfl
  rw [Url.parse, hclean, hscheme]
  rfl

/-! ## Plain paths -/

theorem not_escaped_of_literal {c : Char} (h : c = '%' ∨ Template.isCopied c = true)
    (hquery : c ≠ '?') (hfragment : c ≠ '#') : Url.isEscapedInPath c = false := by
  rcases h with rfl | h
  · decide
  · rcases Template.isCopied_iff.1 h with hletter | hmark
    · have hbounds := Template.toNat_of_isCopied h
      have hother : " \"#<>?`\x7b\x7d".toList.all (!·.isAlphanum) = true := by decide
      have hmem : c ∉ " \"#<>?`\x7b\x7d".toList := fun hc => by
        have := List.all_eq_true.1 hother c hc
        rw [hletter] at this
        cases this
      rw [Url.isEscapedInPath, List.contains_eq_mem, decide_eq_false hmem, Bool.or_false,
        decide_eq_false (by omega), decide_eq_false (by omega)]
      rfl
    · have hmarks : Template.marks.all
          (fun d => d = '?' || d = '#' || !Url.isEscapedInPath d) = true := by decide
      have := List.all_eq_true.1 hmarks c hmark
      rw [decide_eq_false hquery, decide_eq_false hfragment] at this
      exact Bool.not_eq_true' _ ▸ this

theorem percentEncode_of_literal {s : List Char} (hliteral : Template.isLiteral s = true)
    (hunended : ∀ c ∈ s, c ≠ '?' ∧ c ≠ '#') : percentEncode Url.isEscapedInPath s = s :=
  Url.percentEncode_eq_self fun c hc =>
    not_escaped_of_literal (Template.copied_of_isLiteral hliteral c hc) (hunended c hc).1
      (hunended c hc).2

/-- The segments of a literal path are literal. -/
theorem isLiteral_of_joined {segment : List Char} {segments : List (List Char)}
    (h : Template.isLiteral (segment ++ Url.joined segments) = true) :
    ∀ s ∈ segment :: segments, Template.isLiteral s = true := by
  induction segments generalizing segment with
  | nil =>
      rw [Url.joined, List.flatMap_nil, List.append_nil] at h
      intro s hs
      rw [List.mem_singleton.1 hs]
      exact h
  | cons next more ih =>
      change Template.isLiteral (segment ++ '/' :: (next ++ Url.joined more)) = true at h
      intro s hs
      rcases List.mem_cons.1 hs with rfl | hs
      · exact Template.isLiteral_front (by decide) h
      · refine ih (Template.isLiteral_of_suffix ?_ h) s hs
        exact (List.suffix_cons _ _).trans (List.suffix_append _ _)

theorem isLiteral_of_mem_splitBy {path segment : List Char}
    (h : Template.isLiteral path = true) (hmem : segment ∈ Text.splitBy (· = '/') path) :
    Template.isLiteral segment = true := by
  have hjoined := Url.joined_splitBy path
  cases hsegments : Text.splitBy (· = '/') path with
  | nil =>
      rw [hsegments] at hmem
      cases hmem
  | cons first more =>
      rw [hsegments] at hjoined hmem
      have hpath : first ++ Url.joined more = path := (List.cons.inj hjoined).2
      rw [← hpath] at h
      exact isLiteral_of_joined h segment hmem

theorem isLiteral_joined {segments : List (List Char)}
    (h : ∀ s ∈ segments, Template.isLiteral s = true) :
    Template.isLiteral (Url.joined segments) = true := by
  induction segments with
  | nil => rfl
  | cons first more ih =>
      rw [Url.joined, List.flatMap_cons]
      refine Template.isLiteral_append ?_ (ih fun s hs => h s (List.mem_cons_of_mem _ hs))
      exact Template.isLiteral_cons.2 ⟨.inl (by decide), h _ List.mem_cons_self⟩

/-- A plain path is looked up as it is. -/
theorem lookedUp_of_plain {path : List Char} (h : Plain path) : lookedUp path = path := by
  have hpath : Url.beforeQuery path = path := by
    rw [Url.beforeQuery, List.takeWhile_eq_self_iff]
    intro c hc
    simp only [Bool.and_eq_true, decide_eq_true_eq]
    exact h.unended c hc
  have hsteady : ∀ s ∈ Text.splitBy (· = '/') path, Url.Steady s := fun s hs =>
    ⟨(h.steady s hs).1, (h.steady s hs).2,
      percentEncode_of_literal (isLiteral_of_mem_splitBy h.literal hs) fun c hc =>
        h.unended c (Text.of_mem_splitBy hs hc).1⟩
  obtain ⟨c, rest, rfl, hc⟩ := h.relative
  rw [lookedUp, Template.expanded_of_isLiteral h.literal, Url.readPath_slash, hpath,
    Url.resolve_of_steady hsteady, List.reverse_nil, List.nil_append, Url.joined_splitBy]
  have hhead : (c == '/') = false := beq_eq_false_iff_ne.2 hc
  rw [filePart, List.dropWhile_cons_of_pos rfl, List.dropWhile_cons, hhead]
  rfl

/-- A segment of a path that is looked up. -/
structure PlainSegment (segment : List Char) : Prop where
  literal : Template.isLiteral segment = true
  unended : ∀ c ∈ segment, c ≠ '?' ∧ c ≠ '#'
  undivided : '/' ∉ segment
  notHere : Url.isHere segment = false
  notUp : Url.isUp segment = false

theorem plainSegment_nil : PlainSegment [] :=
  ⟨rfl, nofun, nofun, by decide, by decide⟩

theorem plainSegment_of_mem_resolve {path segment : List Char}
    (hliteral : Template.isLiteral path = true) (hunended : ∀ c ∈ path, c ≠ '?' ∧ c ≠ '#')
    (h : segment ∈ Url.resolve [] (Text.splitBy (· = '/') path)) : PlainSegment segment := by
  rcases Url.mem_resolve h with h | rfl | ⟨s, hs, hhere, hup, rfl⟩
  · cases h
  · exact plainSegment_nil
  · have hsliteral := isLiteral_of_mem_splitBy hliteral hs
    have hsunended : ∀ c ∈ s, c ≠ '?' ∧ c ≠ '#' := fun c hc =>
      hunended c (Text.of_mem_splitBy hs hc).1
    rw [percentEncode_of_literal hsliteral hsunended]
    exact ⟨hsliteral, hsunended, fun hc => by simpa using Text.not_of_mem_splitBy hs hc, hhere, hup⟩

theorem plain_of_segments {segments : List (List Char)} (h : ∀ s ∈ segments, PlainSegment s)
    (hne : filePart (Url.joined segments) ≠ []) : Plain (filePart (Url.joined segments)) where
  relative := by
    have hhead := List.head?_dropWhile_not (· == '/') (Url.joined segments)
    cases hpath : filePart (Url.joined segments) with
    | nil => exact absurd hpath hne
    | cons c rest =>
        rw [← filePart, hpath] at hhead
        exact ⟨c, rest, rfl, beq_eq_false_iff_ne.1 hhead⟩
  literal :=
    Template.isLiteral_of_suffix (List.dropWhile_suffix _)
      (isLiteral_joined fun s hs => (h s hs).literal)
  unended c hc := by
    rcases Url.mem_joined ((List.dropWhile_suffix _).subset hc) with rfl | ⟨s, hs, hcs⟩
    · decide
    · exact (h s hs).unended c hcs
  steady s hs := by
    rcases Url.mem_splitBy_dropWhile_joined (fun t ht => (h t ht).undivided) hs with rfl | hs
    · decide
    · exact ⟨(h s hs).notHere, (h s hs).notUp⟩

/-- Whatever is looked up is plain. -/
theorem plain_lookedUp {path : List Char} (h : lookedUp path ≠ []) : Plain (lookedUp path) := by
  rw [lookedUp, Url.readPath_slash] at h ⊢
  have hliteral : Template.isLiteral (Url.beforeQuery (Template.expanded path)) = true := by
    refine Template.isLiteral_takeWhile ?_ (Template.isLiteral_expanded path)
    intro c hc
    simp only [Bool.and_eq_false_iff, decide_eq_false_iff_not, Decidable.not_not] at hc
    rcases hc with rfl | rfl <;> decide
  have hunended : ∀ c ∈ Url.beforeQuery (Template.expanded path), c ≠ '?' ∧ c ≠ '#' := by
    intro c hc
    have := List.mem_takeWhile_imp hc
    simp only [Bool.and_eq_true, decide_eq_true_eq] at this
    exact this
  exact plain_of_segments (fun s hs => plainSegment_of_mem_resolve hliteral hunended hs) h

theorem lookedUp_eq_self_iff {path : List Char} (h : lookedUp path ≠ []) :
    lookedUp path = path ↔ Plain path :=
  ⟨fun heq => heq ▸ plain_lookedUp h, lookedUp_of_plain⟩

/-! ## Reading -/

/-- What is read at an address that leads to a path. -/
def documentAt (uri path : String) : Option String → Except RequestFault ResourceText
  | some text => .ok ⟨uri, "text/markdown", text⟩
  | none => .error (.noDocument path)

theorem answer_documentUri (s : Service) (path : String) (elapsed : Time.Span) :
    answer s (.readResource (documentUri path)) elapsed =
      (some ((readAt s.published (documentUri path) ⟨resourceScheme, some resourceHost,
        Url.readPath false ('/' :: Template.expanded path.toList)⟩).map contentsJson), s) := by
  rw [answer, readResource, parse_documentUri]

theorem readAt_document {p : Published} {uri : String} {path : List Char}
    (h : filePart path ≠ []) :
    readAt p uri ⟨resourceScheme, some resourceHost, path⟩ =
      documentAt uri (String.ofList (filePart path))
        (p.snapshot.file? (String.ofList (filePart path))) := by
  rw [readAt, if_neg (by simp), if_neg h]
  dsimp only
  cases p.snapshot.file? (String.ofList (filePart path)) <;> rfl

/-- Besides the names of the documents, an address makes known only the document that
is looked up for it, if any is. -/
theorem readAt_congr {p p' : Published} {uri : String} {path : List Char}
    (hnames : p.snapshot.fileNames = p'.snapshot.fileNames)
    (hfile : filePart path ≠ [] → p.snapshot.file? (String.ofList (filePart path)) =
      p'.snapshot.file? (String.ofList (filePart path))) :
    readAt p uri ⟨resourceScheme, some resourceHost, path⟩ =
      readAt p' uri ⟨resourceScheme, some resourceHost, path⟩ := by
  by_cases hempty : filePart path = []
  · simp only [readAt, hempty, hnames, if_true]
  · simp only [readAt, hfile hempty, if_neg hempty]

/-- The address of a document leads to the document if the path is plain: it is
answered with exactly what the snapshot holds for the path. If the path is not plain,
the answer is the same whatever the document says. -/
theorem document_address_read (path : String) :
    (Plain path.toList → ∀ (s : Service) (elapsed : Time.Span),
      answer s (.readResource (documentUri path)) elapsed =
        (some ((documentAt (documentUri path) path (s.published.snapshot.file? path)).map
          contentsJson), s)) ∧
    (¬ Plain path.toList → ∀ (s s' : Service) (elapsed : Time.Span),
      s.published.snapshot.fileNames = s'.published.snapshot.fileNames →
      (∀ other, other ≠ path →
        s.published.snapshot.file? other = s'.published.snapshot.file? other) →
      (answer s (.readResource (documentUri path)) elapsed).1 =
        (answer s' (.readResource (documentUri path)) elapsed).1) := by
  have hpath : filePart (Url.readPath false ('/' :: Template.expanded path.toList)) =
      lookedUp path.toList := rfl
  constructor
  · intro hplain s elapsed
    obtain ⟨c, rest, hcons, -⟩ := hplain.relative
    rw [lookedUp_of_plain hplain] at hpath
    have hne : filePart (Url.readPath false ('/' :: Template.expanded path.toList)) ≠ [] := by
      rw [hpath, hcons]
      nofun
    rw [answer_documentUri, readAt_document hne, hpath, String.ofList_toList]
  · intro hplain s s' elapsed hnames hothers
    rw [answer_documentUri, answer_documentUri]
    refine congrArg (fun r => some (r.map contentsJson)) (readAt_congr hnames fun hne => ?_)
    refine hothers _ fun heq => hplain ((lookedUp_eq_self_iff hne).1 ?_)
    exact String.toList_ofList.symm.trans (congrArg String.toList heq)

theorem document_address_read_of_basics :
    Plain "querying/basics.md".toList ∧
      (answer (.offline [("querying/basics.md", "Select series.")])
        (.readResource (documentUri "querying/basics.md")) ⟨0, 0⟩).1 =
          some (.ok (contentsJson
            ⟨documentUri "querying/basics.md", "text/markdown", "Select series."⟩)) ∧
      ¬ Plain "my file.md".toList ∧
      (answer (.offline [("my file.md", "One.")]) (.readResource (documentUri "my file.md"))
        ⟨0, 0⟩).1 =
        (answer (.offline [("my file.md", "Two.")]) (.readResource (documentUri "my file.md"))
          ⟨0, 0⟩).1 := by
  have hunended : "querying/basics.md".toList.all (fun c => c ≠ '?' ∧ c ≠ '#') = true := by decide
  have hplain : Plain "querying/basics.md".toList :=
    ⟨⟨_, _, rfl, by decide⟩, by decide,
      fun c hc => of_decide_eq_true (List.all_eq_true.1 hunended c hc), by decide⟩
  have hblank : ¬ Plain "my file.md".toList := fun h => absurd h.literal (by decide)
  refine ⟨hplain, ?_, hblank, ?_⟩
  · rw [(document_address_read "querying/basics.md").1 hplain]
    rfl
  · refine (document_address_read "my file.md").2 hblank _ _ _ rfl fun other hother => ?_
    change Table.get? [("my file.md", "One.")] other = Table.get? [("my file.md", "Two.")] other
    simp only [Table.get?, if_neg hother]

/-- An archive with one document, whose path has a blank in it. -/
def blankPath : Tree :=
  .ofDocuments [⟨"my file.md", Text.encode "A note.".toList⟩]

theorem build_blankPath : ∃ snapshot, Snapshot.build blankPath = .ok snapshot :=
  Snapshot.exists_build (by decide +kernel)

/-- The document is published, and its own address does not lead to it. -/
theorem document_address_missed :
    ∃ snapshot, Snapshot.build blankPath = .ok snapshot ∧
      snapshot.file? "my file.md" = some "A note." ∧
      readResource (.ofSnapshot snapshot "abc123") (documentUri "my file.md") =
        .error (.noDocument "my%20file.md") := by
  obtain ⟨snapshot, hbuild⟩ := build_blankPath
  have hlooked : filePart (Url.readPath false ('/' :: Template.expanded "my file.md".toList)) =
      "my%20file.md".toList := by
    decide +kernel
  have hnone : snapshot.file? (String.ofList "my%20file.md".toList) = none := by
    rw [Snapshot.file?_of_build hbuild]
    decide +kernel
  refine ⟨snapshot, hbuild, ?_, ?_⟩
  · rw [Snapshot.file?_of_build hbuild]
    decide +kernel
  · rw [readResource, parse_documentUri]
    change readAt _ _ _ = _
    rw [readAt_document (by rw [hlooked]; decide), hlooked]
    exact congrArg (documentAt _ _) hnone

end DocWatch.Mcp
