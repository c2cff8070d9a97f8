import DocWatch.Proofs.Server.Calls

/-!
# How a failed exchange with the database is answered

An exchange with the database may break off, before there is an answer or within
its body, because time has run out or for any other reason. The fault of the call
names the address that was asked, and keeps the reason to itself. So the kind of
the answer cannot depend on the reason: it is read off the address. A call that ran
out of time is answered as one that did only where the address itself says so.
-/

namespace DocWatch.Net

/-- An exchange that breaks off with a failure: without any answer, or within the
body of the answer. -/
inductive BreaksOff (failure : Failure) : Exchange → Prop where
  | unanswered : BreaksOff failure (.failed failure)
  | within {response : Response} {before after : List Part} (hbefore : isWhole before = true)
      (hbody : response.body = before ++ .failed failure :: after) :
      BreaksOff failure (.answered response)

theorem isWhole_append_failed {failure : Failure} (before after : List Part) :
    isWhole (before ++ .failed failure :: after) = false := by
  induction before with
  | nil => rfl
  | cons part rest ih =>
      cases part with
      | data bytes => exact ih
      | failed failure => rfl

end DocWatch.Net

namespace DocWatch.Series

/-- A fault that only says which address was asked in vain. -/
inductive QueryFault.InVain (url : String) : QueryFault → Prop where
  | unanswered (failure : Net.Failure) : InVain url (.unanswered url failure)
  | brokenOff : InVain url (.brokenOff url)

theorem Database.ask_of_breaksOff {d : Database} {t : Net.Transport} {q : Question}
    {failure : Net.Failure} (h : Net.BreaksOff failure (t (d.request q))) :
    ∃ fault, d.ask t q = .error fault ∧ fault.InVain (d.url q) := by
  rw [ask]
  generalize t (d.request q) = exchange at h
  cases h with
  | unanswered => exact ⟨_, rfl, .unanswered failure⟩
  | within hbefore hbody =>
      refine ⟨.brokenOff (d.url q), ?_, .brokenOff⟩
      simp only [hbody, Net.isWhole_append_failed, Bool.false_eq_true, if_false]

end DocWatch.Series

namespace DocWatch.Server

variable {message text url : String} {words tail : List Char}

/-! ## The address decides -/

theorem phraseKind_congr {other : String}
    (h : ∀ row ∈ phrases, Text.holds text row.1 = Text.holds other row.1) :
    phraseKind text = phraseKind other := by
  simp only [phrases, List.forall_mem_cons] at h
  obtain ⟨hdocument, hdisabled, hnot, hmust, hparse, hinvalid, htime, -⟩ := h
  have hcaller : callerPhrases.any (Text.holds text) = callerPhrases.any (Text.holds other) := by
    simp only [callerPhrases, List.any_cons, List.any_nil, hnot, hmust, hparse, hinvalid]
  rw [phraseKind_eq, phraseKind_eq, hdocument, hdisabled, hcaller, htime]

/-- Words around an address in which no phrase lies, and none begins or ends. -/
structure Silent (words tail : List Char) : Prop where
  start : Text.startsWith updatePhrase.toList words = false ∧
    Text.startsWith words updatePhrase.toList = false
  clashes : ∀ row ∈ phrases, Text.Clashes row.1.toList words ∧
    Text.Clashes row.1.toList.reverse tail.reverse

theorem Silent.ofText (hsilent : Silent words tail)
    (h : message.toList = words ++ text.toList ++ tail) :
    ErrorKind.ofText message = phraseKind text := by
  have hstart : Text.startsWith updatePhrase.toList message.toList = false := by
    rw [h, List.append_assoc]
    exact startsWith_words hsilent.start.1 hsilent.start.2 _
  rw [ErrorKind.ofText, hstart, if_neg Bool.false_ne_true]
  exact phraseKind_congr fun row hrow =>
    holds_cited h (hsilent.clashes row hrow).1 (hsilent.clashes row hrow).2

theorem ofText_inVain {fault : Series.QueryFault} (h : fault.InVain url) :
    ErrorKind.ofText fault.message = phraseKind url := by
  cases h with
  | unanswered failure =>
      have hsilent : Silent "request to ".toList " failed".toList := ⟨by decide, by decide⟩
      refine hsilent.ofText ?_
      change ("request to " ++ url ++ " failed").toList = _
      rw [String.toList_append, String.toList_append]
  | brokenOff =>
      have hsilent : Silent "failed reading response from ".toList [] := ⟨by decide, by decide⟩
      exact hsilent.ofText (String.toList_append.trans (List.append_nil _).symm)

/-- A path below an address, in which no phrase lies. -/
def QuietPath (path : String) : Prop :=
  ∃ rest, path.toList = '/' :: rest ∧
    ∀ row ∈ phrases, Text.occurs row.1.toList rest = false

/-- No phrase has a slash in it, so none comes about where the path begins. -/
theorem phraseKind_append {base path : String} (h : QuietPath path) :
    phraseKind (base ++ path) = phraseKind base := by
  obtain ⟨rest, hpath, hquiet⟩ := h
  have hslash : ∀ row ∈ phrases, '/' ∉ row.1.toList := by decide
  refine phraseKind_congr fun row hrow => ?_
  have hrest : ¬ row.1.toList <:+: rest := by
    rw [← Text.occurs_iff, hquiet row hrow]
    exact Bool.false_ne_true
  rw [Bool.eq_iff_iff, Text.holds_iff, Text.holds_iff, String.toList_append, hpath,
    Text.infix_append_cons_iff (hslash row hrow), or_iff_left hrest]

/-- The phrases that are looked for before the one that means a lack of time. -/
def earlierPhrases : List String :=
  ["document not found", "disabled"] ++ callerPhrases

theorem phraseKind_eq_timeout_iff :
    phraseKind text = .timeout ↔
      Text.holds text "timed out" = true ∧ earlierPhrases.any (Text.holds text) = false := by
  rw [phraseKind_eq, earlierPhrases, List.any_append, List.any_cons, List.any_cons, List.any_nil]
  generalize callerPhrases.any (Text.holds text) = caller
  generalize Text.holds text "document not found" = document
  generalize Text.holds text "disabled" = disabled
  generalize Text.holds text "timed out" = time
  revert document disabled caller time
  decide

end DocWatch.Server

namespace DocWatch.Tool

/-- The tools that put a question to the database. -/
def asking : List Tool :=
  [query, rangeQuery, listMetrics]

variable {params : Json} {published : Published} {now : Time.Instant} {question : Series.Question}

theorem ok_of_planOf {result : Except ToolFault Series.Question}
    (h : planOf result = .ask question) : result = .ok question := by
  rw [planOf.eq_def] at h
  split at h
  · cases h
    rfl
  · cases h
  · cases h

theorem question_of_query (h : query.plan params published now = .ask question) :
    ∃ expr time, question = .instant expr time := by
  have hquestion : instantQuestion params now = .ok question := ok_of_planOf h
  rw [instantQuestion] at hquestion
  cases hexpr : requiredText params "query" with
  | error fault =>
      rw [hexpr] at hquestion
      cases hquestion
  | ok expr =>
      rw [hexpr] at hquestion
      cases htime : instant? params "time" with
      | error fault =>
          simp only [htime, bind, Except.bind] at hquestion
          cases hquestion
      | ok time =>
          simp only [htime, bind, Except.bind] at hquestion
          cases hquestion
          exact ⟨expr, _, rfl⟩

theorem question_of_rangeQuery (h : rangeQuery.plan params published now = .ask question) :
    ∃ expr first last step, question = .range expr first last step := by
  change rangePlan params now = .ask question at h
  cases hexpr : requiredText params "query" with
  | error fault =>
      rw [rangePlan_of_error hexpr] at h
      cases h
  | ok expr =>
      rw [rangePlan_eq hexpr] at h
      rcases hbounds : rangeBounds params now with fault | _ | bounds
      · rw [hbounds] at h
        cases h
      · rw [hbounds] at h
        cases h
      · rw [hbounds] at h
        simp only [planWithin] at h
        split at h
        · cases h
        · have hquestion := ok_of_planOf h
          cases hstep : rangeStep params bounds with
          | error fault =>
              rw [hstep] at hquestion
              cases hquestion
          | ok step =>
              rw [hstep] at hquestion
              cases hquestion
              exact ⟨expr, _, _, step, rfl⟩

/-- No tool lets a parameter into the path of a question. -/
theorem path_of_plan {tool : Tool} (htool : tool ∈ asking)
    (h : tool.plan params published now = .ask question) :
    question.path ∈
      ["/api/v1/query", "/api/v1/query_range", "/api/v1/label/__name__/values"] := by
  simp only [asking, List.mem_cons, List.not_mem_nil, or_false] at htool
  rcases htool with rfl | rfl | rfl
  · obtain ⟨expr, time, rfl⟩ := question_of_query h
    exact List.mem_cons_self
  · obtain ⟨expr, first, last, step, rfl⟩ := question_of_rangeQuery h
    exact List.mem_cons_of_mem _ List.mem_cons_self
  · cases h
    exact List.mem_cons_of_mem _ (List.mem_cons_of_mem _ List.mem_cons_self)

end DocWatch.Tool

namespace DocWatch.Server

theorem quietPath_of_mem {path : String} (h : path ∈
    ["/api/v1/query", "/api/v1/query_range", "/api/v1/label/__name__/values"]) :
    QuietPath path := by
  simp only [List.mem_cons, List.not_mem_nil, or_false] at h
  rcases h with rfl | rfl | rfl
  · exact ⟨"api/v1/query".toList, rfl, by decide⟩
  · exact ⟨"api/v1/query_range".toList, rfl, by decide⟩
  · exact ⟨"api/v1/label/__name__/values".toList, rfl, by decide⟩

/-- The kind of a call whose exchange breaks off is the one that the address of the
database looks like. -/
theorem ofText_of_breaksOff {s : Service} {params : Json} {tool : Tool}
    {question : Series.Question} {failure : Net.Failure} (htool : tool ∈ Tool.asking)
    (hplan : tool.plan params s.published s.updates.clock = .ask question)
    (hbreaks : Net.BreaksOff failure (s.transport (s.database.request question))) :
    ∃ fault : Series.QueryFault, s.database.ask s.transport question = .error fault ∧
      fault.InVain (s.database.url question) ∧
      ErrorKind.ofText fault.message = phraseKind s.database.baseUrl := by
  obtain ⟨fault, hask, hvain⟩ := Series.Database.ask_of_breaksOff hbreaks
  refine ⟨fault, hask, hvain, ?_⟩
  rw [ofText_inVain hvain, Series.Database.url,
    phraseKind_append (quietPath_of_mem (Tool.path_of_plan htool hplan))]

theorem status_eq_timeout_iff {kind : ErrorKind} : kind.status = 408 ↔ kind = .timeout := by
  cases kind <;> decide

/-- A call that puts a question to the database, sent to the address of its tool:
if the exchange breaks off, for a lack of time or for any other reason, the answer
names the tool and the address that was asked, and never the reason. Its status
says that time ran out if and only if the address of the database does, and holds
no phrase that is looked for before. -/
theorem broken_exchange_answered {s : Service} {r : HttpRequest} {segment : List Char}
    {params : Json} {tool : Tool} {question : Series.Question} {failure : Net.Failure}
    (elapsed : Time.Span) (hmethod : r.method = "POST")
    (hroute : Route.ofPath? (pathOf r.target) = some (.tool segment))
    (haccepted : inspect s.tools segment r = .accepted tool params)
    (htool : tool ∈ Tool.asking)
    (hplan : tool.plan params s.published s.updates.clock = .ask question)
    (hbreaks : Net.BreaksOff failure (s.transport (s.database.request question))) :
    ∃ fault : Series.QueryFault, fault.InVain (s.database.url question) ∧
      (handle s r elapsed).1 =
        some (.error (phraseKind s.database.baseUrl) (tool.name ++ ": " ++ fault.message)) ∧
      ((handle s r elapsed).1.map HttpResponse.status = some 408 ↔
        Text.holds s.database.baseUrl "timed out" = true ∧
          earlierPhrases.any (Text.holds s.database.baseUrl) = false) := by
  obtain ⟨fault, hask, hvain, hkind⟩ := ofText_of_breaksOff htool hplan hbreaks
  have hoffered : s.ask question = .fault (.query fault) := by rw [Service.ask, hask]
  have hanswer : (handle s r elapsed).1 =
      some (.error (phraseKind s.database.baseUrl) (tool.name ++ ": " ++ fault.message)) := by
    rw [handle_of_accepted elapsed hmethod hroute haccepted, Service.outcome_call, hplan,
      Service.perform, hoffered, ← hkind]
    rfl
  refine ⟨fault, hvain, hanswer, ?_⟩
  rw [hanswer, ← phraseKind_eq_timeout_iff, ← status_eq_timeout_iff]
  exact Option.some_inj

/-! ## A database that does not answer in time -/

/-- A service whose database lets the time run out. -/
def waiting : Service :=
  { quiet with
    transport := fun r =>
      .failed ⟨["error sending request for url (" ++ r.url ++ ")", "operation timed out"], true⟩ }

def upCall : HttpRequest where
  method := "POST"
  target := "/tools/query"
  contentType := some "application/json"
  body := Text.encode "\x7b\"query\": \"up\"\x7d".toList

/-- What the body of the call holds. -/
def up : Json :=
  (Json.ofBytes? upCall.body).getD .null

theorem route_upCall :
    Route.ofPath? (pathOf upCall.target) = some (.tool "query".toList) := by
  decide +kernel

/-- The body of the call does for any tool. -/
theorem inspect_up {tools : Registry} {segment name : List Char} {tool : Tool} (target : String)
    (hname : Net.percentDecoded? segment = some name)
    (htool : tools.find? (String.ofList name) = some tool) :
    inspect tools segment { upCall with target } = .accepted tool up :=
  inspect_of_text hname (by decide +kernel : upCall.contentType.any Net.namesJson = true)
    (by decide +kernel : ¬ bodyLimit < upCall.body.length)
    (ofBytes?_of_isSome (by decide +kernel : (Json.ofBytes? upCall.body).isSome = true))
    (by decide +kernel : Tool.text? up "query" = some "up") htool

theorem inspect_upCall : inspect waiting.tools "query".toList upCall = .accepted .query up :=
  inspect_up upCall.target
    (by decide +kernel : Net.percentDecoded? "query".toList = some "query".toList) rfl

theorem plan_up :
    Tool.query.plan up waiting.published waiting.updates.clock = .ask (.instant "up" ⟨0, 0⟩) := by
  have hquestion : Tool.instantQuestion up ⟨0, 0⟩ = .ok (.instant "up" ⟨0, 0⟩) := by
    decide +kernel
  change Tool.planOf (Tool.instantQuestion up ⟨0, 0⟩) = _
  rw [hquestion]
  rfl

theorem broken_exchange_answered_of_waiting :
    ∃ fault : Series.QueryFault, fault.InVain "http://database/api/v1/query" ∧
      (handle waiting upCall ⟨30, 0⟩).1 =
        some (.error .toolError ("query: " ++ fault.message)) ∧
      (handle waiting upCall ⟨30, 0⟩).1.map HttpResponse.status ≠ some 408 := by
  have hurl : waiting.database.url (.instant "up" ⟨0, 0⟩) = "http://database/api/v1/query" := by
    decide
  obtain ⟨fault, hvain, hanswer, hstatus⟩ := broken_exchange_answered ⟨30, 0⟩ rfl route_upCall
    inspect_upCall List.mem_cons_self plan_up .unanswered
  rw [hurl] at hvain
  have hkind : phraseKind waiting.database.baseUrl = .toolError := by decide +kernel
  rw [hkind] at hanswer
  exact ⟨fault, hvain, hanswer, fun h => absurd (hstatus.1 h).1 (by decide +kernel)⟩

/-- The time of an exchange runs out, and the answer does not say so. -/
theorem timeout_blamed_on_server :
    (∃ failure, failure.timedOut = true ∧ Net.BreaksOff failure
        (waiting.transport (waiting.database.request (.instant "up" ⟨0, 0⟩)))) ∧
      (handle waiting upCall ⟨30, 0⟩).1.map HttpResponse.status = some 500 := by
  refine ⟨⟨_, rfl, .unanswered⟩, ?_⟩
  have hask : waiting.ask (.instant "up" ⟨0, 0⟩) = .fault (.query (.unanswered
      "http://database/api/v1/query"
      ⟨["error sending request for url (http://database/api/v1/query)", "operation timed out"],
        true⟩)) := by
    rfl
  rw [handle_of_accepted ⟨30, 0⟩ rfl route_upCall inspect_upCall]
  simp only [Service.outcome_call, plan_up, Service.perform, hask, callResponse?, Option.map_some]
  rfl

end DocWatch.Server
