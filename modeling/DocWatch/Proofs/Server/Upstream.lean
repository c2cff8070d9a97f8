import DocWatch.Proofs.Server.Exchanges

/-!
# Who is blamed for a failure upstream

Some failures are nobody's fault on this side of the server: an update of the documents
that does not succeed, a database that cannot be reached, breaks off, or answers with
something else than an envelope. None of them should be put down to the caller.

An update says in its first words what it is, and that is looked for before anything else,
whatever else it reports. The failures of an exchange say nothing of the kind. Two of them
cite foreign text, the address of the database or the beginning of what was answered, and
the text is searched for phrases like the text of any fault. So they are put down to the
caller where what they cite looks like it.
-/

namespace DocWatch.Series

/-- The ways in which an exchange comes to no envelope, each with its report and the
foreign text that the report cites. -/
inductive Database.Fails (d : Database) (t : Net.Transport) (q : Question) :
    QueryFault → String → Prop where
  | unanswered {failure : Net.Failure} (h : t (d.request q) = .failed failure) :
      Fails d t q (.unanswered (d.url q) failure) d.baseUrl
  | brokenOff {r : Net.Response} (h : t (d.request q) = .answered r)
      (hbody : Net.isWhole r.body = false) : Fails d t q (.brokenOff (d.url q)) d.baseUrl
  | refused {r : Net.Response} (h : t (d.request q) = .answered r)
      (hbody : Net.isWhole r.body = true) (hstatus : r.isSuccess = false)
      (hjson : (Json.ofBytes? (Net.arrived r.body)).bind Envelope.ofJson? = none) :
      Fails d t q (.refused r.status (excerpt (Net.arrived r.body)))
        (excerpt (Net.arrived r.body))
  | undecodable {r : Net.Response} (h : t (d.request q) = .answered r)
      (hbody : Net.isWhole r.body = true) (hstatus : r.isSuccess = true)
      (hjson : (Json.ofBytes? (Net.arrived r.body)).bind Envelope.ofJson? = none) :
      Fails d t q .undecodable ""

theorem Database.Fails.ask {d : Database} {t : Net.Transport} {q : Question} {fault : QueryFault}
    {cited : String} (h : d.Fails t q fault cited) : d.ask t q = .error fault := by
  cases h with
  | unanswered h => rw [Database.ask, h]
  | brokenOff h hbody => simp only [Database.ask, h, hbody, Bool.false_eq_true, if_false]
  | refused h hbody hstatus hjson =>
      simp only [Database.ask, h, hbody, if_true, Reply.ofBody, hjson, hstatus,
        Bool.false_eq_true, if_false]
  | undecodable h hbody hstatus hjson =>
      simp only [Database.ask, h, hbody, if_true, Reply.ofBody, hjson, hstatus]

end DocWatch.Series

namespace DocWatch.Server

variable {fault : Series.QueryFault} {cited : String}

/-! ## Updates -/

theorem ofText_update (fault : UpdateFault) :
    ErrorKind.ofText (ToolFault.message (.update fault)) = .toolError := by
  have hmessage : (ToolFault.message (.update fault)).toList =
      "docs update failed while ".toList ++
        (fault.stage.name.toList ++ (": ".toList ++ fault.fault.message.toList)) := by
    change ("docs update failed while " ++ fault.stage.name ++ ": " ++
      fault.fault.message).toList = _
    simp only [String.toList_append, List.append_assoc]
  have hstart : Text.startsWith updatePhrase.toList
      (ToolFault.message (.update fault)).toList = true := by
    rw [Text.startsWith_iff, hmessage]
    exact (Text.startsWith_iff.1 (by decide)).trans (List.prefix_append _ _)
  rw [ErrorKind.ofText, if_pos hstart]

/-! ## Exchanges -/

/-- A phrase has letters, so none lies in the digits of a number. -/
theorem not_infix_digits {phrase : List Char} (h : phrase.all Char.isDigit = false) (n : Nat) :
    ¬ phrase <:+: (toString n).toList := by
  intro hinfix
  have hdigits : phrase.all Char.isDigit = true := by
    rw [List.all_eq_true]
    intro c hc
    have hdigit : c ∈ Nat.toDigits 10 n := by
      rw [← Nat.toList_repr]
      exact hinfix.subset hc
    exact Nat.isDigit_of_mem_toDigits (by decide) (by decide) hdigit
  rw [h] at hdigits
  cases hdigits

theorem ofText_refused (status : Nat) (excerpt : String) :
    ErrorKind.ofText (Series.QueryFault.message (.refused status excerpt)) =
      phraseKind excerpt := by
  have hmessage : (Series.QueryFault.message (.refused status excerpt)).toList =
      "prometheus returned status ".toList ++ (toString status).toList ++
        ':' :: (" ".toList ++ excerpt.toList) := by
    change ("prometheus returned status " ++ toString status ++ ": " ++ excerpt).toList = _
    simp only [String.toList_append, List.append_assoc]
    rfl
  have hstart : Text.startsWith updatePhrase.toList
      (Series.QueryFault.message (.refused status excerpt)).toList = false := by
    rw [hmessage, List.append_assoc]
    exact startsWith_words (by decide) (by decide) _
  have hcolon : ∀ row ∈ phrases, ':' ∉ row.1.toList := by decide
  have hletter : ∀ row ∈ phrases, row.1.toList.all Char.isDigit = false := by decide
  have hwords : ∀ row ∈ phrases,
      Text.Clashes row.1.toList "prometheus returned status ".toList := by decide
  have hblank : ∀ row ∈ phrases, Text.Clashes row.1.toList " ".toList := by decide
  rw [ErrorKind.ofText, hstart, if_neg Bool.false_ne_true]
  refine phraseKind_congr fun row hrow => ?_
  -- the colon parts the number from the excerpt, and no phrase lies in front of it
  have hfront : ¬ row.1.toList <:+:
      "prometheus returned status ".toList ++ (toString status).toList := by
    rw [(hwords row hrow).infix_append]
    exact not_infix_digits (hletter row hrow) status
  rw [Bool.eq_iff_iff, Text.holds_iff, Text.holds_iff, hmessage,
    Text.infix_append_cons_iff (hcolon row hrow), or_iff_right hfront,
    (hblank row hrow).infix_append]

/-- The kind of a call whose exchange fails is the one that the text cited looks like. -/
theorem ofText_of_fails {d : Series.Database} {t : Net.Transport} {q : Series.Question}
    (hquiet : QuietPath q.path) (h : d.Fails t q fault cited) :
    ErrorKind.ofText fault.message = phraseKind cited := by
  have hurl : phraseKind (d.url q) = phraseKind d.baseUrl := phraseKind_append hquiet
  cases h with
  | unanswered => rw [ofText_inVain (.unanswered _), hurl]
  | brokenOff => rw [ofText_inVain .brokenOff, hurl]
  | refused => exact ofText_refused _ _
  | undecodable => decide

/-! ## Who is blamed -/

/-- An answer that does not blame the caller: for a lack of time, or a fault of the
server. -/
def HttpResponse.SparesCaller (response : HttpResponse) : Prop :=
  response.status = 408 ∨ 500 ≤ response.status

theorem sparesCaller_iff {text : String} (message : String) :
    (HttpResponse.error (phraseKind text) message).SparesCaller ↔
      earlierPhrases.any (Text.holds text) = false := by
  change (phraseKind text).status = 408 ∨ 500 ≤ (phraseKind text).status ↔ _
  rw [phraseKind_eq, earlierPhrases, List.any_append, List.any_cons, List.any_cons, List.any_nil]
  generalize callerPhrases.any (Text.holds text) = caller
  generalize Text.holds text "document not found" = document
  generalize Text.holds text "disabled" = disabled
  generalize Text.holds text "timed out" = time
  revert document disabled caller time
  decide

section

variable {s : Service} {r : HttpRequest} {segment : List Char} {params : Json} {tool : Tool}

theorem handle_of_refresh_error {fault : UpdateFault} (elapsed : Time.Span)
    (hmethod : r.method = "POST")
    (hroute : Route.ofPath? (pathOf r.target) = some (.tool segment))
    (haccepted : inspect s.tools segment r = .accepted tool params)
    (hplan : tool.plan params s.published s.updates.clock = .refresh)
    (henabled : s.updatesEnabled = true) (hupdate : s.updates.update.1 = some (.error fault)) :
    (handle s r elapsed).1 =
      some (.error .toolError (tool.name ++ ": " ++ fault.message)) := by
  have houtcome : (s.perform .refresh).1 = .fault (.update fault) := by
    simp only [Service.perform, Service.refresh, if_pos henabled, hupdate]
  rw [handle_of_accepted elapsed hmethod hroute haccepted, Service.outcome_call, hplan, houtcome,
    callResponse?, ofText_update]
  rfl

theorem handle_of_fails {question : Series.Question} (elapsed : Time.Span)
    (hmethod : r.method = "POST")
    (hroute : Route.ofPath? (pathOf r.target) = some (.tool segment))
    (haccepted : inspect s.tools segment r = .accepted tool params) (htool : tool ∈ Tool.asking)
    (hplan : tool.plan params s.published s.updates.clock = .ask question)
    (hfails : s.database.Fails s.transport question fault cited) :
    (handle s r elapsed).1 =
      some (.error (phraseKind cited) (tool.name ++ ": " ++ fault.message)) := by
  have houtcome : (s.perform (.ask question)).1 = .fault (.query fault) := by
    simp only [Service.perform, Service.ask, hfails.ask]
  have hkind : ErrorKind.ofText (ToolFault.message (.query fault)) = phraseKind cited :=
    ofText_of_fails (quietPath_of_mem (Tool.path_of_plan htool hplan)) hfails
  rw [handle_of_accepted elapsed hmethod hroute haccepted, Service.outcome_call, hplan, houtcome,
    callResponse?, hkind]
  rfl

/-- A call that fails upstream, sent to the address of its tool. If an update fails, at
whatever stage and for whatever cause, it is a fault of the server. If an exchange with the
database does, the answer names the tool and the failure, and the caller is blamed for it
exactly if the text that is cited holds a phrase of those faults that are the caller's. -/
theorem upstream_failure_answered (elapsed : Time.Span) (hmethod : r.method = "POST")
    (hroute : Route.ofPath? (pathOf r.target) = some (.tool segment))
    (haccepted : inspect s.tools segment r = .accepted tool params) :
    (∀ fault : UpdateFault, tool.plan params s.published s.updates.clock = .refresh →
      s.updatesEnabled = true → s.updates.update.1 = some (.error fault) →
      ∃ response, (handle s r elapsed).1 = some response ∧
        response = .error .toolError (tool.name ++ ": " ++ fault.message) ∧
        response.SparesCaller) ∧
    ∀ question fault cited, tool ∈ Tool.asking →
      tool.plan params s.published s.updates.clock = .ask question →
      s.database.Fails s.transport question fault cited →
      ∃ response, (handle s r elapsed).1 = some response ∧
        response = .error (phraseKind cited) (tool.name ++ ": " ++ fault.message) ∧
        (response.SparesCaller ↔ earlierPhrases.any (Text.holds cited) = false) := by
  refine ⟨fun fault hplan henabled hupdate => ?_, fun question fault cited htool hplan hfails => ?_⟩
  · have hanswer := handle_of_refresh_error elapsed hmethod hroute haccepted hplan henabled hupdate
    exact ⟨_, hanswer, rfl, .inr (Nat.le_refl 500)⟩
  · have hanswer := handle_of_fails elapsed hmethod hroute haccepted htool hplan hfails
    exact ⟨_, hanswer, rfl, sparesCaller_iff _⟩

end

/-! ## A gateway in front of the database -/

/-- What the gateway says where it gets no answer. -/
def badGateway (answer : String) : Net.Response :=
  ⟨502, none, [.data (Text.encode answer.toList)]⟩

/-- A service that may update its documents, and whose database is behind a gateway. -/
def gateway (answer : String) : Service :=
  { quiet with
    updatesEnabled := true
    transport := fun _ => .answered (badGateway answer) }

/-- A call for an update. What its body says makes no difference. -/
def refreshCall : HttpRequest :=
  { upCall with target := "/tools/docs_refresh" }

theorem update_gateway (answer : String) :
    (gateway answer).updates.update.1 = some (.error ⟨.checkingRemote, Update.outOfCycles⟩) := by
  have hupdate : quiet.updates.update.1 = some (.error ⟨.checkingRemote, Update.outOfCycles⟩) := by
    decide +kernel
  exact hupdate

theorem inspect_gateway (answer : String) :
    inspect (gateway answer).tools "query".toList upCall = .accepted .query up :=
  inspect_upCall

theorem plan_gateway (answer : String) :
    Tool.query.plan up (gateway answer).published (gateway answer).updates.clock =
      .ask (.instant "up" ⟨0, 0⟩) :=
  plan_up

theorem gateway_fails (answer : String)
    (hjson : (Json.ofBytes? (Net.arrived (badGateway answer).body)).isSome = false)
    (hexcerpt : Series.excerpt (Net.arrived (badGateway answer).body) = answer) :
    (gateway answer).database.Fails (gateway answer).transport (.instant "up" ⟨0, 0⟩)
      (.refused 502 answer) answer := by
  have hnone : Json.ofBytes? (Net.arrived (badGateway answer).body) = none := by
    simpa using hjson
  have hfails : (gateway answer).database.Fails (gateway answer).transport (.instant "up" ⟨0, 0⟩)
      (.refused (badGateway answer).status (Series.excerpt (Net.arrived (badGateway answer).body)))
      (Series.excerpt (Net.arrived (badGateway answer).body)) :=
    .refused rfl rfl rfl (by rw [hnone]; rfl)
  rw [hexcerpt] at hfails
  exact hfails

theorem upstream_failure_answered_of_gateway :
    (∃ response, (handle (gateway "") refreshCall ⟨1, 0⟩).1 = some response ∧
      response.SparesCaller) ∧
    ∃ response, (handle (gateway "bad gateway") upCall ⟨1, 0⟩).1 = some response ∧
      response.SparesCaller := by
  have hroute : Route.ofPath? (pathOf refreshCall.target) = some (.tool "docs_refresh".toList) := by
    decide +kernel
  have hrefresh : inspect (gateway "").tools "docs_refresh".toList refreshCall =
      .accepted .docsRefresh up :=
    inspect_up "/tools/docs_refresh" (by decide +kernel :
      Net.percentDecoded? "docs_refresh".toList = some "docs_refresh".toList) rfl
  constructor
  · obtain ⟨response, hresponse, -, hspares⟩ := (upstream_failure_answered ⟨1, 0⟩ rfl hroute
      hrefresh).1 _ rfl rfl (update_gateway "")
    exact ⟨response, hresponse, hspares⟩
  · have hfails := gateway_fails "bad gateway" (by decide +kernel) (by decide +kernel)
    obtain ⟨response, hresponse, -, hspares⟩ := (upstream_failure_answered ⟨1, 0⟩ rfl route_upCall
      (inspect_gateway _)).2 _ _ _ List.mem_cons_self (plan_gateway _) hfails
    exact ⟨response, hresponse, hspares.2 (by decide +kernel)⟩

/-- A service that does not reach its database, whose address has a suspect word in it. -/
def astray : Service :=
  { quiet with database := ⟨"http://database/invalid"⟩ }

/-- The gateway answers for itself, or there is no answer, and the caller is blamed for a
word that is not the caller's. -/
theorem upstream_blamed_on_caller :
    ((∃ fault, (gateway "invalid header").database.Fails (gateway "invalid header").transport
        (.instant "up" ⟨0, 0⟩) fault "invalid header") ∧
      (handle (gateway "invalid header") upCall ⟨1, 0⟩).1.map HttpResponse.status = some 400) ∧
    (∃ fault, astray.database.Fails astray.transport (.instant "up" ⟨0, 0⟩) fault
        "http://database/invalid") ∧
      (handle astray upCall ⟨1, 0⟩).1.map HttpResponse.status = some 400 := by
  have hgateway := gateway_fails "invalid header" (by decide +kernel) (by decide +kernel)
  have hastray : astray.database.Fails astray.transport (.instant "up" ⟨0, 0⟩) _ _ :=
    .unanswered rfl
  refine ⟨⟨⟨_, hgateway⟩, ?_⟩, ⟨_, hastray⟩, ?_⟩
  · rw [handle_of_fails ⟨1, 0⟩ rfl route_upCall (inspect_gateway _) List.mem_cons_self
      (plan_gateway _) hgateway]
    decide +kernel
  · rw [handle_of_fails ⟨1, 0⟩ rfl route_upCall (s := astray) inspect_upCall List.mem_cons_self
      plan_up hastray]
    decide +kernel

end DocWatch.Server
