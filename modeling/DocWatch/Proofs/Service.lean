import DocWatch.Net.Unreachable
import DocWatch.Service

/-!
# Calls and their plans

What a call comes to is what its plan comes to: to measure a call changes nothing
about its outcome.
-/

namespace DocWatch.Service

theorem outcome_call (s : Service) (tool : Tool) (params : Json) (elapsed : Time.Span) :
    (s.call tool params elapsed).1 =
      (s.perform (tool.plan params s.published s.updates.clock)).1 :=
  rfl

/-- A service with some documents, which are not updated, and without a network. -/
def offline (files : Table String) : Service where
  tools := .standard
  updatesEnabled := false
  updates :=
    ⟨⟨"", "main", .standard, 1000⟩, .start (.ofSnapshot ⟨files, .empty, "", 0⟩ ""),
      ⟨fun _ => none, false, 0, []⟩, ⟨0, 0⟩⟩
  database := ⟨"http://database"⟩
  transport := Net.unreachable
  calls := .none

end DocWatch.Service
