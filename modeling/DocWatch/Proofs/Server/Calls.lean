import DocWatch.Proofs.Server.ErrorKind
import DocWatch.Proofs.Service
import DocWatch.Proofs.Tool.Parameters
import DocWatch.Proofs.Traffic.Requests

/-!
# How calls with wrong parameters are answered

A call that fails for its parameters is answered with the kind that the server
reads off the text of the fault. `parameterKind` is that kind by the fault itself.
For nearly all faults it is the one that is promised, a bad request or, for a
document that is not there, not found. There are two exceptions. A count in a step
that fits no 64 bits is reported in words that hold none of the phrases. And a
fault that cites the caller can be taken for another one, by what it cites.
-/

namespace DocWatch.Server

/-- The text that a fault cites from the parameters. -/
def citedText? : ToolFault → Option String
  | .timestamp fault => some fault.text
  | .step (.notPositive text) | .step (.malformed text) | .step (.unknownUnit _ text) => some text
  | _ => none

/-- The kind that a fault of the parameters is answered with. -/
def parameterKind (fault : ToolFault) : ErrorKind :=
  match citedText? fault with
  | some text => citedKind text
  | none =>
      match fault with
      | .noDocument _ => .notFound
      | .step .countTooLarge => .toolError
      | _ => .badRequest

variable {published : Published} {params : Json} {now : Time.Instant} {tool : Tool}
  {fault : ToolFault}

theorem ofText_noDocument (file : String) :
    ErrorKind.ofText (ToolFault.message (.noDocument file)) = .notFound := by
  have hmessage : (ToolFault.message (.noDocument file)).toList =
      "document not found: ".toList ++ file.toList := String.toList_append
  have hstart : Text.startsWith updatePhrase.toList
      (ToolFault.message (.noDocument file)).toList = false := by
    rw [hmessage]
    exact startsWith_words (by decide) (by decide) _
  have hholds : Text.holds (ToolFault.message (.noDocument file)) "document not found" = true := by
    rw [Text.holds_iff, hmessage]
    exact (Text.occurs_iff.1 (by decide :
      Text.occurs "document not found".toList "document not found: ".toList = true)).trans
        (List.prefix_append _ _).isInfix
  rw [ErrorKind.ofText_eq, hstart, hholds]
  rfl

theorem ofText_of_offence (h : Tool.Offence published params now tool fault) :
    ErrorKind.ofText fault.message = parameterKind fault := by
  cases h with
  | noQuery | noFile | limit | backwards => decide
  | unpublished => exact ofText_noDocument _
  | time | bound => exact ofText_timestamp _
  | step htext hparse hfits =>
      obtain ⟨refused, hne⟩ := Tool.refused_of_text? htext hparse
      cases refused with
      | empty => exact absurd rfl hne
      | notPositive => exact ofText_notPositive _
      | malformed => exact ofText_malformed _
      | countTooLarge => decide
      | unknownUnit part letters =>
          refine ofText_unknownUnit ?_ letters
          rw [String.toList_ofList]
          exact part
      | tooLong => exact absurd rfl hfits

/-- A text that a fault cites is a parameter of the call. -/
theorem text?_of_citedText? (h : Tool.Offence published params now tool fault) {text : String}
    (hcited : citedText? fault = some text) : ∃ key, Tool.text? params key = some text := by
  cases h with
  | noQuery | noFile | unpublished | limit | backwards => cases hcited
  | time h =>
      cases hcited
      exact ⟨_, h⟩
  | bound _ h =>
      cases hcited
      exact ⟨_, h⟩
  | step h hparse =>
      have refused := (Tool.refused_of_text? h hparse).1
      refine ⟨_, h.trans ?_⟩
      cases refused with
      | empty | countTooLarge | tooLong => cases hcited
      | notPositive | malformed | unknownUnit =>
          rw [← hcited]
          exact congrArg some (String.ofList_toList).symm

/-- A fault is answered as it is promised: a bad request, or not found for a
document that is not published. -/
def Promised (fault : ToolFault) (kind : ErrorKind) : Prop :=
  kind = .badRequest ∨ ∃ file, fault = .noDocument file ∧ kind = .notFound

/-- What makes a fault of the parameters look like another one. -/
inductive Misjudged (params : Json) : ToolFault → Prop where
  | count : Misjudged params (.step .countTooLarge)
  | cited {fault : ToolFault} {key text : String} (h : Tool.text? params key = some text)
      (hcited : citedText? fault = some text)
      (hphrase : Text.holds text "document not found" = true ∨ Text.holds text "disabled" = true) :
      Misjudged params fault

theorem citedKind_eq_badRequest_iff {text : String} :
    citedKind text = .badRequest ↔
      ¬ (Text.holds text "document not found" = true ∨ Text.holds text "disabled" = true) := by
  rw [citedKind, not_or]
  split
  · rename_i h
    simp [h]
  · rename_i h
    split
    · rename_i h'
      simp [h']
    · rename_i h'
      simp [h, h']

theorem misjudged_iff_of_cited {text : String} (h : Tool.Offence published params now tool fault)
    (hcited : citedText? fault = some text) :
    Misjudged params fault ↔
      Text.holds text "document not found" = true ∨ Text.holds text "disabled" = true := by
  constructor
  · rintro (_ | ⟨_, hcited', hphrase⟩)
    · cases hcited
    · rw [hcited] at hcited'
      cases hcited'
      exact hphrase
  · intro hphrase
    obtain ⟨key, hkey⟩ := text?_of_citedText? h hcited
    exact .cited hkey hcited hphrase

theorem promised_iff (h : Tool.Offence published params now tool fault) :
    Promised fault (parameterKind fault) ↔ ¬ Misjudged params fault := by
  cases hcited : citedText? fault with
  | some text =>
      have hdocument : ∀ file, fault ≠ .noDocument file := by
        rintro file rfl
        cases hcited
      have hkind : parameterKind fault = citedKind text := by simp only [parameterKind, hcited]
      rw [misjudged_iff_of_cited h hcited, ← citedKind_eq_badRequest_iff, Promised, hkind]
      exact or_iff_left fun ⟨file, hfile, _⟩ => hdocument file hfile
  | none =>
      have hmisjudged : Misjudged params fault → fault = .step .countTooLarge := by
        rintro (_ | ⟨_, hcited', _⟩)
        · rfl
        · rw [hcited] at hcited'
          cases hcited'
      cases h with
      | noQuery | noFile | limit | backwards => exact iff_of_true (.inl rfl) (nomatch hmisjudged ·)
      | unpublished => exact iff_of_true (.inr ⟨_, rfl, rfl⟩) (nomatch hmisjudged ·)
      | time | bound => cases hcited
      | step htext hparse hfits =>
          obtain ⟨refused, hne⟩ := Tool.refused_of_text? htext hparse
          cases refused with
          | empty => exact absurd rfl hne
          | tooLong => exact absurd rfl hfits
          | notPositive | malformed | unknownUnit => cases hcited
          | countTooLarge =>
              refine iff_of_false ?_ (not_not_intro .count)
              rintro (hkind | ⟨_, hfile, _⟩)
              · cases hkind
              · cases hfile

theorem handle_of_accepted {s : Service} {r : HttpRequest} {segment : List Char}
    (elapsed : Time.Span) (hmethod : r.method = "POST")
    (hroute : Route.ofPath? (pathOf r.target) = some (.tool segment))
    (haccepted : inspect s.tools segment r = .accepted tool params) :
    (handle s r elapsed).1 = callResponse? tool (s.call tool params elapsed).1 :=
  congrArg Prod.fst (handle_eq_call elapsed hmethod hroute haccepted)

/-- A call to a tool that takes parameters, sent to its own address: if it fails
for its parameters, before the database is asked anything, the answer names the
tool and the fault, with the promised kind unless the fault is misjudged. And if it
comes to no plan at all there is no answer. -/
theorem parameter_fault_answered {s : Service} {r : HttpRequest} {segment : List Char}
    (elapsed : Time.Span) (hmethod : r.method = "POST")
    (hroute : Route.ofPath? (pathOf r.target) = some (.tool segment))
    (haccepted : inspect s.tools segment r = .accepted tool params)
    (htool : tool ∈ Tool.parameterised) :
    (∀ fault, tool.plan params s.published s.updates.clock = .fail fault →
      Tool.Offence s.published params s.updates.clock tool fault ∧
      (handle s r elapsed).1 =
        some (.error (parameterKind fault) (tool.name ++ ": " ++ fault.message)) ∧
      (Promised fault (parameterKind fault) ↔ ¬ Misjudged params fault)) ∧
    (tool.plan params s.published s.updates.clock = .crash → (handle s r elapsed).1 = none) := by
  rw [handle_of_accepted elapsed hmethod hroute haccepted]
  refine ⟨fun fault hfail => ?_, fun hcrash => ?_⟩
  · have hoffence := Tool.offence_of_plan htool hfail
    refine ⟨hoffence, ?_, promised_iff hoffence⟩
    simp only [Service.outcome_call, hfail, Service.perform, callResponse?,
      ofText_of_offence hoffence]
  · simp only [Service.outcome_call, hcrash, Service.perform, callResponse?]

/-- Where there is a text among the parameters, they are an object. -/
theorem paramsOf?_of_text? {key text : String} (h : Tool.text? params key = some text) :
    paramsOf? params = some params := by
  cases params with
  | object => rfl
  | null | bool | number | string | array => cases h

theorem ofBytes?_of_isSome {body : Bytes} (h : (Json.ofBytes? body).isSome = true) :
    Json.ofBytes? body = some ((Json.ofBytes? body).getD .null) := by
  obtain ⟨v, hv⟩ := Option.isSome_iff_exists.1 h
  rw [hv]
  rfl

/-- A call with some text among its parameters gets through to its tool. -/
theorem inspect_of_text {tools : Registry} {segment name : List Char} {r : HttpRequest}
    {key text : String} (hname : Net.percentDecoded? segment = some name)
    (hkind : r.contentType.any Net.namesJson = true) (hsize : ¬ bodyLimit < r.body.length)
    (hbody : Json.ofBytes? r.body = some params) (htext : Tool.text? params key = some text)
    (htool : tools.find? (String.ofList name) = some tool) :
    inspect tools segment r = .accepted tool params := by
  rw [inspect, hname, hkind, hbody]
  simp only [if_neg hsize, paramsOf?_of_text? htext, htool]
  rfl

/-! ## A step that is too long a number -/

/-- A service without documents. -/
def quiet : Service :=
  .offline []

def longStepCall : HttpRequest where
  method := "POST"
  target := "/tools/range_query"
  contentType := some "application/json"
  body := Text.encode
    "\x7b\"query\": \"up\", \"step\": \"18446744073709551616s\"\x7d".toList

/-- What the body of the call holds. -/
def longStep : Json :=
  (Json.ofBytes? longStepCall.body).getD .null

theorem route_longStep :
    Route.ofPath? (pathOf longStepCall.target) = some (.tool "range_query".toList) := by
  decide +kernel

theorem inspect_longStep :
    inspect quiet.tools "range_query".toList longStepCall = .accepted .rangeQuery longStep :=
  inspect_of_text
    (by decide +kernel : Net.percentDecoded? "range_query".toList = some "range_query".toList)
    (by decide +kernel) (by decide +kernel) (ofBytes?_of_isSome (by decide +kernel))
    (by decide +kernel : Tool.text? longStep "query" = some "up") rfl

theorem plan_longStep :
    Tool.rangeQuery.plan longStep quiet.published quiet.updates.clock =
      .fail (.step .countTooLarge) := by
  have hexpr : Tool.requiredText longStep "query" = .ok "up" := by decide +kernel
  have hbounds : Tool.rangeBounds longStep quiet.updates.clock =
      .ok (some ⟨⟨-300, 0⟩, ⟨0, 0⟩⟩) := by
    decide +kernel
  have hstep : Tool.rangeStep longStep ⟨⟨-300, 0⟩, ⟨0, 0⟩⟩ = .error (.step .countTooLarge) := by
    decide +kernel
  change Tool.rangePlan longStep quiet.updates.clock = _
  rw [Tool.rangePlan_eq hexpr, hbounds]
  change Tool.planWithin _ _ _ = _
  rw [Tool.planWithin, if_neg (by decide), hstep]
  rfl

theorem parameter_fault_answered_of_longStep :
    Tool.Offence quiet.published longStep ⟨0, 0⟩ .rangeQuery (.step .countTooLarge) ∧
      (handle quiet longStepCall ⟨0, 0⟩).1 =
        some (.error .toolError "range_query: number too large to fit in target type") ∧
      ¬ Promised (.step .countTooLarge) .toolError := by
  obtain ⟨hoffence, hanswer, hpromised⟩ := (parameter_fault_answered ⟨0, 0⟩ rfl route_longStep
    inspect_longStep (List.mem_cons_of_mem _ List.mem_cons_self)).1 _ plan_longStep
  exact ⟨hoffence, hanswer, fun h => hpromised.1 h .count⟩

/-- The call fails for a parameter, and the answer blames the server. -/
theorem longStep_blamed_on_server :
    Tool.rangeQuery.plan longStep quiet.published quiet.updates.clock =
        .fail (.step .countTooLarge) ∧
      (handle quiet longStepCall ⟨0, 0⟩).1.map HttpResponse.status = some 500 := by
  refine ⟨plan_longStep, ?_⟩
  rw [handle_of_accepted ⟨0, 0⟩ rfl route_longStep inspect_longStep]
  simp only [Service.outcome_call, plan_longStep, Service.perform, callResponse?, Option.map_some]
  rfl

end DocWatch.Server
