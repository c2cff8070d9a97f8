import DocWatch.Mcp.Bridge
import DocWatch.Server.Http

/-!
# Requests that come to a call

Tools are called on two ways, by a request over HTTP and by a message. On both ways a request
is looked at first, and only what passes comes to a call: `opened?` says to which one. All
that a request does to the service it does by this call. One that comes to no call leaves the
service as it is, and among these are the ones that name no tool, and those over HTTP whose
body holds neither null nor an object. The call is carried out under the name of the tool, and
as a tool is found by its name this is the name that the request holds.
-/

namespace DocWatch

variable {tools : Registry} {tool : Tool} {params : Json} {name : String} {s : Service}

theorem Registry.find?_eq_some (h : tools.find? name = some tool) :
    tool ∈ tools ∧ tool.name = name := by
  rw [find?] at h
  have hname := List.find?_some h
  exact ⟨List.mem_of_find?_eq_some h, of_decide_eq_true hname⟩

namespace Server

variable {r : HttpRequest} {segment : List Char}

/-- The name that stands for a tool in the path of a request. -/
def named? (r : HttpRequest) : Option String :=
  match Route.ofPath? (pathOf r.target) with
  | some (.tool segment) => (Net.percentDecoded? segment).map String.ofList
  | _ => none

/-- The call that a request comes to. -/
def opened? (tools : Registry) (r : HttpRequest) : Option (Tool × Json) :=
  match Route.ofPath? (pathOf r.target) with
  | some (.tool segment) =>
      if r.method = "POST" then
        match inspect tools segment r with
        | .accepted tool params => some (tool, params)
        | .refused _ => none
      else none
  | _ => none

theorem of_inspect (h : inspect tools segment r = .accepted tool params) :
    ∃ chars v, Net.percentDecoded? segment = some chars ∧
      tools.find? (String.ofList chars) = some tool ∧
      Json.ofBytes? r.body = some v ∧ paramsOf? v = some params := by
  rw [inspect] at h
  split at h
  · cases h
  · rename_i chars hchars
    split at h
    · cases h
    · split at h
      · cases h
      · split at h
        · cases h
        · rename_i v hv
          split at h
          · cases h
          · rename_i found hfound
            split at h
            · cases h
            · rename_i given hgiven
              cases h
              exact ⟨chars, v, hchars, hfound, hv, hgiven⟩

theorem opened?_eq_some (h : opened? tools r = some (tool, params)) :
    ∃ segment, Route.ofPath? (pathOf r.target) = some (.tool segment) ∧ r.method = "POST" ∧
      inspect tools segment r = .accepted tool params := by
  rw [opened?] at h
  split at h
  · rename_i segment hroute
    split at h
    · rename_i hpost
      split at h
      · rename_i found given hinspect
        cases h
        exact ⟨segment, hroute, hpost, hinspect⟩
      · cases h
    · cases h
  · cases h

theorem named?_of_opened? (h : opened? tools r = some (tool, params)) :
    named? r = some tool.name ∧ tool ∈ tools := by
  obtain ⟨segment, hroute, -, hinspect⟩ := opened?_eq_some h
  obtain ⟨chars, v, hchars, hfound, -⟩ := of_inspect hinspect
  obtain ⟨hmem, hname⟩ := Registry.find?_eq_some hfound
  refine ⟨?_, hmem⟩
  simp only [named?, hroute, hchars, hname, Option.map_some]

theorem paramsOf?_eq_some {v : Json} (h : paramsOf? v = some params) :
    v = .null ∨ ∃ members, v = .object members := by
  cases v with
  | null => exact .inl rfl
  | object members => exact .inr ⟨members, rfl⟩
  | bool | number | string | array => cases h

theorem body_of_opened? (h : opened? tools r = some (tool, params)) :
    Json.ofBytes? r.body = some .null ∨
      ∃ members, Json.ofBytes? r.body = some (.object members) := by
  obtain ⟨segment, -, -, hinspect⟩ := opened?_eq_some h
  obtain ⟨chars, v, -, -, hv, hparams⟩ := of_inspect hinspect
  rw [hv]
  rcases paramsOf?_eq_some hparams with rfl | ⟨members, rfl⟩
  · exact .inl rfl
  · exact .inr ⟨members, rfl⟩

/-- What gets through to its parameters is carried out, and measured. -/
theorem handle_eq_call (elapsed : Time.Span) (hmethod : r.method = "POST")
    (hroute : Route.ofPath? (pathOf r.target) = some (.tool segment))
    (haccepted : inspect s.tools segment r = .accepted tool params) :
    handle s r elapsed =
      (callResponse? tool (s.call tool params elapsed).1, (s.call tool params elapsed).2) := by
  have hoptions : ¬ r.method = "OPTIONS" := by
    rw [hmethod]
    decide
  have hallows : (Route.tool segment).allows r.method = true := decide_eq_true hmethod
  simp only [handle, if_neg hoptions, hroute, hallows, if_true, respond, callTool, haccepted]

theorem handle_of_opened? (elapsed : Time.Span) (h : opened? s.tools r = some (tool, params)) :
    (handle s r elapsed).2 = (s.call tool params elapsed).2 := by
  obtain ⟨segment, hroute, hpost, hinspect⟩ := opened?_eq_some h
  rw [handle_eq_call elapsed hpost hroute hinspect]

theorem handle_of_unopened (elapsed : Time.Span) (h : opened? s.tools r = none) :
    (handle s r elapsed).2 = s := by
  rw [handle]
  split
  · rfl
  · cases hroute : Route.ofPath? (pathOf r.target) with
    | none => rfl
    | some route =>
        dsimp only
        split
        · rename_i hallows
          cases route with
          | toolList | health | meters => rfl
          | tool segment =>
              rw [opened?, hroute] at h
              dsimp only at h
              rw [if_pos (of_decide_eq_true hallows)] at h
              rw [respond, callTool]
              split at h
              · cases h
              · rename_i response hinspect
                rw [hinspect]
        · rfl

end Server

namespace Mcp

variable {m : Message}

/-- The name that stands for a tool in a message. -/
def named? (m : Message) : Option String :=
  match m.request with
  | .callTool name _ => some name
  | _ => none

/-- The call that a message comes to. A notice comes to none. -/
def opened? (tools : Registry) (m : Message) : Option (Tool × Json) :=
  match m.id, m.request with
  | some _, .callTool name arguments => (tools.find? name).map fun tool => (tool, arguments)
  | _, _ => none

theorem opened?_eq_some (h : opened? tools m = some (tool, params)) :
    ∃ id name, m.id = some id ∧ m.request = .callTool name params ∧
      tools.find? name = some tool := by
  rw [opened?] at h
  split at h
  · rename_i id name arguments hid hrequest
    obtain ⟨found, hfound, heq⟩ := Option.map_eq_some_iff.1 h
    cases heq
    exact ⟨id, name, hid, hrequest, hfound⟩
  · cases h

theorem named?_of_opened? (h : opened? tools m = some (tool, params)) :
    named? m = some tool.name ∧ tool ∈ tools := by
  obtain ⟨id, name, -, hrequest, hfound⟩ := opened?_eq_some h
  obtain ⟨hmem, hname⟩ := Registry.find?_eq_some hfound
  refine ⟨?_, hmem⟩
  simp only [named?, hrequest, hname]

theorem handle_of_opened? (elapsed : Time.Span) (h : opened? s.tools m = some (tool, params)) :
    (handle s m elapsed).2 = (s.call tool params elapsed).2 := by
  obtain ⟨id, name, hid, hrequest, hfound⟩ := opened?_eq_some h
  simp only [handle, hid, answer, hrequest, hfound]

theorem handle_of_unopened (elapsed : Time.Span) (h : opened? s.tools m = none) :
    (handle s m elapsed).2 = s := by
  rw [handle]
  cases hid : m.id with
  | none => rfl
  | some id =>
      dsimp only
      cases hrequest : m.request with
      | callTool name arguments =>
          simp only [opened?, hid, hrequest, Option.map_eq_none_iff] at h
          simp only [answer, h]
      | _ => rfl

end Mcp

/-- A request on one of the two ways. -/
inductive Arrival where
  | http (r : Server.HttpRequest)
  | message (m : Mcp.Message)

namespace Arrival

variable {a : Arrival}

def named? : Arrival → Option String
  | .http r => Server.named? r
  | .message m => Mcp.named? m

/-- The call that a request comes to. -/
def opened? (tools : Registry) : Arrival → Option (Tool × Json)
  | .http r => Server.opened? tools r
  | .message m => Mcp.opened? tools m

/-- The service after a request that is handled at one stretch. -/
def handled (s : Service) (elapsed : Time.Span) : Arrival → Service
  | .http r => (Server.handle s r elapsed).2
  | .message m => (Mcp.handle s m elapsed).2

/-- How the call ends that a request comes to when it is handled at one stretch. -/
def outcome? (s : Service) (elapsed : Time.Span) (a : Arrival) : Option CallOutcome :=
  (a.opened? s.tools).map fun call => (s.call call.1 call.2 elapsed).1

/-- A request that has a body over HTTP has neither null nor an object in it. -/
def Shapeless : Arrival → Prop
  | .http r => Json.ofBytes? r.body ≠ some .null ∧
      ∀ members, Json.ofBytes? r.body ≠ some (.object members)
  | .message _ => False

theorem named?_of_opened? (h : a.opened? tools = some (tool, params)) :
    a.named? = some tool.name ∧ tool ∈ tools := by
  cases a with
  | http r => exact Server.named?_of_opened? h
  | message m => exact Mcp.named?_of_opened? h

theorem opened?_of_unknown (hname : a.named? = some name) (h : ∀ tool ∈ tools, tool.name ≠ name) :
    a.opened? tools = none := by
  rw [Option.eq_none_iff_forall_not_mem]
  rintro ⟨tool, params⟩ hopened
  obtain ⟨hnamed, hmem⟩ := named?_of_opened? hopened
  rw [hname] at hnamed
  exact h tool hmem (Option.some.inj hnamed).symm

theorem opened?_of_shapeless (h : a.Shapeless) : a.opened? tools = none := by
  cases a with
  | message m => cases h
  | http r =>
      rw [Option.eq_none_iff_forall_not_mem]
      rintro ⟨tool, params⟩ hopened
      rcases Server.body_of_opened? hopened with hnull | ⟨members, hobject⟩
      · exact h.1 hnull
      · exact h.2 members hobject

theorem handled_of_opened? (elapsed : Time.Span) (h : a.opened? s.tools = some (tool, params)) :
    a.handled s elapsed = (s.call tool params elapsed).2 := by
  cases a with
  | http r => exact Server.handle_of_opened? elapsed h
  | message m => exact Mcp.handle_of_opened? elapsed h

theorem handled_of_unopened (elapsed : Time.Span) (h : a.opened? s.tools = none) :
    a.handled s elapsed = s := by
  cases a with
  | http r => exact Server.handle_of_unopened elapsed h
  | message m => exact Mcp.handle_of_unopened elapsed h

end Arrival

end DocWatch
