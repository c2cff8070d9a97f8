import DocWatch.Proofs.Time.Span
import DocWatch.Tool.Documents
import DocWatch.Tool.Queries

/-!
# What can be wrong with the parameters of a call

A call to one of the tools that take parameters fails at once for few reasons, and
`Offence` lists them by tool. Whatever text a fault cites is, character for
character, a parameter of the call without the white space around it.
-/

namespace DocWatch.Tool

open Time

variable {params : Json} {published : Published} {now : Instant} {key text : String}

/-! ## Texts -/

theorem trimmed_of_text? (h : text? params key = some text) :
    Text.trim text.toList = text.toList ∧ text.toList ≠ [] := by
  rw [text?] at h
  split at h
  · cases h
  · split at h
    · cases h
    · rename_i s _ hne
      cases h
      refine ⟨?_, fun hnil => hne (String.toList_eq_nil_iff.1 hnil)⟩
      rw [Text.trimmed, String.toList_ofList, Text.trim_trim]

theorem fault_of_requiredText {fault : ToolFault}
    (h : requiredText params key = .error fault) :
    fault = .blank key ∧ text? params key = none := by
  rw [requiredText] at h
  split at h
  · cases h
  · rename_i hnone
    cases h
    exact ⟨rfl, hnone⟩

theorem text?_of_requiredText (h : requiredText params key = .ok text) :
    text? params key = some text := by
  rw [requiredText] at h
  split at h
  · rename_i hsome
    cases h
    exact hsome
  · cases h

theorem timestamp_of_parse {fault : TimestampFault} (h : Instant.parse text = .error fault) :
    fault = ⟨String.ofList (Text.trim text.toList)⟩ := by
  rw [Instant.parse] at h
  split at h
  · cases h
  · cases h
    rfl

theorem fault_of_instant? {fault : ToolFault} (h : instant? params key = .error fault) :
    ∃ text, text? params key = some text ∧ Instant.parse text = .error ⟨text⟩ ∧
      fault = .timestamp ⟨text⟩ := by
  rw [instant?] at h
  split at h
  · cases h
  · rename_i s hs
    cases hparse : Instant.parse s with
    | ok t =>
        rw [hparse] at h
        cases h
    | error e =>
        rw [hparse] at h
        cases h
        have htext := timestamp_of_parse hparse
        rw [(trimmed_of_text? hs).1, String.ofList_toList] at htext
        rw [htext] at hparse ⊢
        exact ⟨s, hs, hparse, rfl⟩

theorem fault_of_rangeBounds {fault : ToolFault} (h : rangeBounds params now = .error fault) :
    ∃ key text, (key = "start" ∨ key = "end") ∧ text? params key = some text ∧
      Instant.parse text = .error ⟨text⟩ ∧ fault = .timestamp ⟨text⟩ := by
  rw [rangeBounds] at h
  cases hend : instant? params "end" with
  | error e =>
      rw [hend] at h
      cases h
      obtain ⟨text, htext, hparse, rfl⟩ := fault_of_instant? hend
      exact ⟨_, text, .inr rfl, htext, hparse, rfl⟩
  | ok last =>
      rw [hend] at h
      cases hstart : instant? params "start" with
      | error e =>
          simp only [hstart, bind, Except.bind] at h
          cases h
          obtain ⟨text, htext, hparse, rfl⟩ := fault_of_instant? hstart
          exact ⟨_, text, .inl rfl, htext, hparse, rfl⟩
      | ok first =>
          cases first <;> simp only [hstart, bind, Except.bind] at h <;> cases h

theorem fault_of_rangeStep {bounds : RangeBounds} {fault : ToolFault}
    (h : rangeStep params bounds = .error fault) :
    ∃ text cause, text? params "step" = some text ∧ Span.parse text = .error cause ∧
      fault = .step cause := by
  rw [rangeStep] at h
  split at h
  · cases h
  · rename_i s hs
    cases hparse : Span.parse s with
    | ok step =>
        rw [hparse] at h
        cases h
    | error cause =>
        rw [hparse] at h
        cases h
        exact ⟨s, cause, hs, hparse, rfl⟩

/-- A text that is a parameter is never refused for being empty. -/
theorem refused_of_text? {cause : SpanFault} (h : text? params key = some text)
    (hparse : Span.parse text = .error cause) :
    Span.Refused text.toList cause ∧ cause ≠ .empty := by
  obtain ⟨htrim, hne⟩ := trimmed_of_text? h
  have hrefused := Span.refused_of_parse hparse
  rw [htrim] at hrefused
  refine ⟨hrefused, ?_⟩
  rintro rfl
  cases hrefused with
  | empty hnil => exact hne hnil

/-! ## Calls that fail at once -/

/-- What is wrong with the parameters of a call that fails for them. -/
inductive Offence (published : Published) (params : Json) (now : Instant) :
    Tool → ToolFault → Prop where
  | noQuery {tool : Tool} (htool : tool = query ∨ tool = rangeQuery ∨ tool = docsSearch)
      (h : text? params "query" = none) : Offence published params now tool (.blank "query")
  | noFile (h : text? params "file" = none) : Offence published params now docsRead (.blank "file")
  | unpublished {text : String} (h : text? params "file" = some text)
      (hfile : published.snapshot.file? (documentPath text) = none) :
      Offence published params now docsRead (.noDocument (documentPath text))
  | limit {n : Int} (h : (params.member "limit").int64? = some n) (hsmall : n < 1) :
      Offence published params now docsSearch .limitTooSmall
  | time {text : String} (h : text? params "time" = some text)
      (hparse : Instant.parse text = .error ⟨text⟩) :
      Offence published params now query (.timestamp ⟨text⟩)
  | bound {key text : String} (hkey : key = "start" ∨ key = "end")
      (h : text? params key = some text) (hparse : Instant.parse text = .error ⟨text⟩) :
      Offence published params now rangeQuery (.timestamp ⟨text⟩)
  | backwards {bounds : RangeBounds} (h : rangeBounds params now = .ok (some bounds))
      (horder : bounds.last.before bounds.first = true) :
      Offence published params now rangeQuery .backwards
  | step {text : String} {cause : SpanFault} (h : text? params "step" = some text)
      (hparse : Span.parse text = .error cause) (hfits : cause ≠ .overflow) :
      Offence published params now rangeQuery (.step cause)

theorem fault_of_planOf {question : Except ToolFault Series.Question} {fault : ToolFault}
    (h : planOf question = .fail fault) : question = .error fault ∧ fault ≠ .step .overflow := by
  rw [planOf.eq_def] at h
  split at h
  · cases h
  · cases h
  · rename_i hne
    cases h
    exact ⟨rfl, hne⟩

theorem offence_of_query {fault : ToolFault}
    (h : query.plan params published now = .fail fault) :
    Offence published params now query fault := by
  obtain ⟨h, -⟩ := fault_of_planOf h
  rw [instantQuestion] at h
  cases hexpr : requiredText params "query" with
  | error e =>
      rw [hexpr] at h
      cases h
      obtain ⟨rfl, hnone⟩ := fault_of_requiredText hexpr
      exact .noQuery (.inl rfl) hnone
  | ok expr =>
      rw [hexpr] at h
      cases htime : instant? params "time" with
      | error e =>
          simp only [htime, bind, Except.bind] at h
          cases h
          obtain ⟨text, htext, hparse, rfl⟩ := fault_of_instant? htime
          exact .time htext hparse
      | ok time =>
          simp only [htime, bind, Except.bind] at h
          cases h

/-- What a call over bounds that are known comes to. -/
def planWithin (params : Json) (expr : String) (bounds : RangeBounds) : Plan :=
  if bounds.last.before bounds.first then .fail .backwards
  else planOf ((rangeStep params bounds).map fun step =>
    .range expr bounds.first bounds.last step)

theorem rangePlan_eq {expr : String} (h : requiredText params "query" = .ok expr) :
    rangePlan params now =
      match rangeBounds params now with
      | .error fault => .fail fault
      | .ok none => .crash
      | .ok (some bounds) => planWithin params expr bounds := by
  rw [rangePlan, h]
  simp only [bind, Except.bind]
  rcases rangeBounds params now with _ | _ | bounds <;> rfl

theorem rangePlan_of_error {fault : ToolFault} (h : requiredText params "query" = .error fault) :
    rangePlan params now = .fail fault := by
  rw [rangePlan, h]
  rfl

theorem offence_of_planWithin {expr : String} {bounds : RangeBounds} {fault : ToolFault}
    (hbounds : rangeBounds params now = .ok (some bounds))
    (h : planWithin params expr bounds = .fail fault) :
    Offence published params now rangeQuery fault := by
  rw [planWithin] at h
  split at h
  · rename_i horder
    cases h
    exact .backwards hbounds horder
  · obtain ⟨h, hfits⟩ := fault_of_planOf h
    cases hstep : rangeStep params bounds with
    | error e =>
        rw [hstep] at h
        cases h
        obtain ⟨text, cause, htext, hparse, rfl⟩ := fault_of_rangeStep hstep
        exact .step htext hparse fun hover => hfits (congrArg _ hover)
    | ok step =>
        rw [hstep] at h
        cases h

theorem offence_of_rangeQuery {fault : ToolFault}
    (h : rangeQuery.plan params published now = .fail fault) :
    Offence published params now rangeQuery fault := by
  change rangePlan params now = .fail fault at h
  cases hexpr : requiredText params "query" with
  | error e =>
      rw [rangePlan_of_error hexpr] at h
      cases h
      obtain ⟨rfl, hnone⟩ := fault_of_requiredText hexpr
      exact .noQuery (.inr (.inl rfl)) hnone
  | ok expr =>
      rw [rangePlan_eq hexpr] at h
      cases hbounds : rangeBounds params now with
      | error e =>
          rw [hbounds] at h
          cases h
          obtain ⟨key, text, hkey, htext, hparse, rfl⟩ := fault_of_rangeBounds hbounds
          exact .bound hkey htext hparse
      | ok bounds =>
          rw [hbounds] at h
          cases bounds with
          | none => cases h
          | some bounds => exact offence_of_planWithin hbounds h

theorem offence_of_docsSearch {fault : ToolFault}
    (h : docsSearch.plan params published now = .fail fault) :
    Offence published params now docsSearch fault := by
  simp only [docsSearch, searchBy] at h
  split at h
  · rename_i e hquery
    cases h
    obtain ⟨rfl, hnone⟩ := fault_of_requiredText hquery
    exact .noQuery (.inr (.inr rfl)) hnone
  · split at h
    · rename_i e hlimit
      cases h
      rw [searchLimit] at hlimit
      split at hlimit
      · cases hlimit
      · rename_i n hn
        split at hlimit
        · cases hlimit
        · rename_i hsmall
          cases hlimit
          exact .limit hn (Int.not_le.1 hsmall)
    · cases h

theorem offence_of_docsRead {fault : ToolFault}
    (h : docsRead.plan params published now = .fail fault) :
    Offence published params now docsRead fault := by
  simp only [docsRead] at h
  split at h
  · rename_i e hfile
    cases h
    obtain ⟨rfl, hnone⟩ := fault_of_requiredText hfile
    exact .noFile hnone
  · rename_i text htext
    split at h
    · cases h
    · rename_i hnone
      cases h
      exact .unpublished (text?_of_requiredText htext) hnone

/-- The tools whose calls may fail for their parameters. -/
def parameterised : List Tool :=
  [query, rangeQuery, docsSearch, docsRead]

theorem offence_of_plan {tool : Tool} {fault : ToolFault} (htool : tool ∈ parameterised)
    (h : tool.plan params published now = .fail fault) :
    Offence published params now tool fault := by
  simp only [parameterised, List.mem_cons, List.not_mem_nil, or_false] at htool
  rcases htool with rfl | rfl | rfl | rfl
  · exact offence_of_query h
  · exact offence_of_rangeQuery h
  · exact offence_of_docsSearch h
  · exact offence_of_docsRead h

end DocWatch.Tool
