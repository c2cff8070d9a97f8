import DocWatch.Proofs.Service
import DocWatch.Proofs.Tool.Parameters

/-!
# When a call over a range has no end

A call over a range that has an expression can do without any other parameter, and
nearly all that is wrong with these is reported. Two things are not, where the
arithmetic behind them is partial: a start that is five minutes before the end, if
the end comes too early for that, and a step that is too long a span. `Overflows`
lists them, and such a call ends without a result. Every other call either reports
a fault and asks the database nothing, or puts one question to it: what becomes of
the call then depends on what comes of that one request.
-/

namespace DocWatch.Tool

open Time

variable {params : Json} {published : Published} {now : Instant} {key : String}

/-- The parameters of a range give a time or a span that cannot be represented. -/
inductive Overflows (params : Json) (now : Instant) : Prop where
  /-- No start is given, and there is no time so long before the end. -/
  | start {last? : Option Instant} (hexpr : text? params "query" ≠ none)
      (hlast : instant? params "end" = .ok last?) (hstart : text? params "start" = none)
      (hearly : (last?.getD now).before? defaultRange = none)
  /-- The range is in order, but the text of its step stands for too long a span. -/
  | step {bounds : RangeBounds} {text : String} (hexpr : text? params "query" ≠ none)
      (hbounds : rangeBounds params now = .ok (some bounds))
      (horder : bounds.last.before bounds.first = false)
      (hstep : text? params "step" = some text) (hlong : Span.TooLong text.toList)

theorem instant?_eq_none_iff : instant? params key = .ok none ↔ text? params key = none := by
  rw [instant?]
  split
  · rename_i hnone
    exact iff_of_true rfl hnone
  · rename_i s hs
    rw [hs]
    cases Instant.parse s <;> constructor <;> intro h <;> cases h

/-- The bounds of a range leave what can be represented only where the start is
reckoned from the end. -/
theorem rangeBounds_eq_none_iff :
    rangeBounds params now = .ok none ↔
      ∃ last?, instant? params "end" = .ok last? ∧ text? params "start" = none ∧
        (last?.getD now).before? defaultRange = none := by
  rw [rangeBounds, ← instant?_eq_none_iff]
  constructor
  · intro h
    cases hend : instant? params "end" with
    | error e =>
        rw [hend] at h
        cases h
    | ok last? =>
        cases hstart : instant? params "start" with
        | error e =>
            simp only [hend, hstart, bind, Except.bind] at h
            cases h
        | ok first? =>
            cases first? with
            | some first =>
                simp only [hend, hstart, bind, Except.bind] at h
                cases h
            | none =>
                simp only [hend, hstart, bind, Except.bind] at h
                exact ⟨last?, rfl, rfl, Option.map_eq_none_iff.1 (Except.ok.inj h)⟩
  · rintro ⟨last?, hend, hstart, hearly⟩
    simp only [hend, hstart, bind, Except.bind]
    exact congrArg _ (Option.map_eq_none_iff.2 hearly)

theorem mapError_eq_error_iff {α ε ε' : Type} {x : Except ε α} {f : ε → ε'} {e : ε'} :
    x.mapError f = .error e ↔ ∃ cause, x = .error cause ∧ f cause = e := by
  constructor
  · intro h
    cases x with
    | ok a => cases h
    | error cause => exact ⟨cause, rfl, Except.error.inj h⟩
  · rintro ⟨cause, rfl, rfl⟩
    rfl

theorem map_eq_error_iff {α β ε : Type} {x : Except ε α} {f : α → β} {e : ε} :
    x.map f = .error e ↔ x = .error e := by
  constructor
  · intro h
    cases x with
    | ok a => cases h
    | error cause => exact congrArg _ (Except.error.inj h)
  · rintro rfl
    rfl

theorem rangeStep_eq_overflow_iff {bounds : RangeBounds} :
    rangeStep params bounds = .error (.step .overflow) ↔
      ∃ text, text? params "step" = some text ∧ Span.TooLong text.toList := by
  rw [rangeStep]
  cases hs : text? params "step" with
  | none =>
      constructor
      · intro h
        cases h
      · rintro ⟨_, h, -⟩
        cases h
  | some s =>
      have hparse := @Span.parse_eq_overflow_iff s
      rw [(trimmed_of_text? hs).1] at hparse
      dsimp only
      rw [mapError_eq_error_iff]
      constructor
      · rintro ⟨cause, hspan, hcause⟩
        cases hcause
        exact ⟨s, rfl, hparse.1 hspan⟩
      · rintro ⟨_, hsome, hlong⟩
        cases hsome
        exact ⟨.overflow, hparse.2 hlong, rfl⟩

theorem planOf_eq_crash_iff {question : Except ToolFault Series.Question} :
    planOf question = .crash ↔ question = .error (.step .overflow) := by
  constructor
  · intro h
    rw [planOf.eq_def] at h
    split at h
    · cases h
    · rfl
    · cases h
  · rintro rfl
    rfl

theorem planWithin_eq_crash_iff {expr : String} {bounds : RangeBounds} :
    planWithin params expr bounds = .crash ↔
      bounds.last.before bounds.first = false ∧
        ∃ text, text? params "step" = some text ∧ Span.TooLong text.toList := by
  rw [planWithin, ← @rangeStep_eq_overflow_iff params bounds]
  cases bounds.last.before bounds.first with
  | true =>
      constructor
      · intro h
        cases h
      · rintro ⟨h, -⟩
        cases h
  | false =>
      rw [if_neg Bool.false_ne_true, planOf_eq_crash_iff, map_eq_error_iff, and_iff_right rfl]

theorem overflows_iff :
    Overflows params now ↔ text? params "query" ≠ none ∧
      (rangeBounds params now = .ok none ∨
        ∃ bounds, rangeBounds params now = .ok (some bounds) ∧
          bounds.last.before bounds.first = false ∧
            ∃ text, text? params "step" = some text ∧ Span.TooLong text.toList) := by
  rw [rangeBounds_eq_none_iff]
  constructor
  · rintro (⟨hexpr, hlast, hstart, hearly⟩ | ⟨hexpr, hbounds, horder, hstep, hlong⟩)
    · exact ⟨hexpr, .inl ⟨_, hlast, hstart, hearly⟩⟩
    · exact ⟨hexpr, .inr ⟨_, hbounds, horder, _, hstep, hlong⟩⟩
  · rintro ⟨hexpr, ⟨_, hlast, hstart, hearly⟩ | ⟨_, hbounds, horder, _, hstep, hlong⟩⟩
    · exact .start hexpr hlast hstart hearly
    · exact .step hexpr hbounds horder hstep hlong

theorem rangeQuery_plan : rangeQuery.plan params published now = rangePlan params now :=
  rfl

theorem rangePlan_eq_crash_iff : rangePlan params now = .crash ↔ Overflows params now := by
  rw [overflows_iff]
  cases hexpr : requiredText params "query" with
  | error fault =>
      rw [rangePlan_of_error hexpr]
      constructor
      · intro h
        cases h
      · exact fun h => absurd (fault_of_requiredText hexpr).2 h.1
  | ok expr =>
      have hsome : text? params "query" ≠ none := by
        rw [text?_of_requiredText hexpr]
        exact Option.some_ne_none expr
      rw [rangePlan_eq hexpr, and_iff_right hsome]
      rcases rangeBounds params now with fault | _ | bounds
      · simp
      · simp
      · simp [planWithin_eq_crash_iff]

/-- The question that a call over a range puts, by its parameters. -/
inductive Poses (params : Json) (now : Instant) : Series.Question → Prop where
  | range {expr : String} {bounds : RangeBounds} {step : Span}
      (hexpr : text? params "query" = some expr)
      (hbounds : rangeBounds params now = .ok (some bounds))
      (horder : bounds.last.before bounds.first = false)
      (hstep : rangeStep params bounds = .ok step) :
      Poses params now (.range expr bounds.first bounds.last step)

theorem rangePlan_of_poses {q : Series.Question} (h : Poses params now q) :
    rangePlan params now = .ask q := by
  cases h with
  | @range expr bounds step hexpr hbounds horder hstep =>
      have hrequired : requiredText params "query" = .ok expr := by
        rw [requiredText, hexpr]
      rw [rangePlan_eq hrequired, hbounds]
      change planWithin params expr bounds = _
      rw [planWithin, horder, if_neg Bool.false_ne_true, hstep]
      rfl

theorem poses_of_planWithin {expr : String} {bounds : RangeBounds} {plan : Plan}
    (hexpr : text? params "query" = some expr)
    (hbounds : rangeBounds params now = .ok (some bounds))
    (h : planWithin params expr bounds = plan) :
    plan = .crash ∨ (∃ fault, plan = .fail fault) ∨ ∃ q, plan = .ask q ∧ Poses params now q := by
  rw [planWithin] at h
  split at h
  · exact .inr (.inl ⟨_, h.symm⟩)
  · rename_i horder
    cases hstep : rangeStep params bounds with
    | ok step =>
        rw [hstep] at h
        exact .inr (.inr ⟨_, h.symm, .range hexpr hbounds (Bool.eq_false_iff.2 horder) hstep⟩)
    | error fault =>
        rw [hstep] at h
        change planOf (.error fault) = plan at h
        rw [planOf.eq_def] at h
        split at h
        · contradiction
        · exact .inl h.symm
        · exact .inr (.inl ⟨_, h.symm⟩)

/-- A call over a range comes to nothing at all, to a fault, or to a question. -/
theorem rangePlan_cases (params : Json) (now : Instant) :
    rangePlan params now = .crash ∨ (∃ fault, rangePlan params now = .fail fault) ∨
      ∃ q, rangePlan params now = .ask q ∧ Poses params now q := by
  cases hexpr : requiredText params "query" with
  | error fault => exact .inr (.inl ⟨_, rangePlan_of_error hexpr⟩)
  | ok expr =>
      have hplan := @rangePlan_eq params now expr hexpr
      cases hbounds : rangeBounds params now with
      | error fault =>
          rw [hbounds] at hplan
          exact .inr (.inl ⟨_, hplan⟩)
      | ok bounds? =>
          rw [hbounds] at hplan
          cases bounds? with
          | none => exact .inl hplan
          | some bounds =>
              exact poses_of_planWithin (text?_of_requiredText hexpr) hbounds hplan.symm

end DocWatch.Tool

namespace DocWatch.Service

open Tool

/-- A call over a range ends without a result just when a time or a span of it cannot
be represented. Any other call that poses no question fails for its parameters, however
requests would be answered. And one that poses a question puts it once: it comes to what
the answer to that request makes of it, whatever would come of other requests. -/
theorem range_call_outcome (s : Service) (params : Json) (elapsed : Time.Span) :
    (Overflows params s.updates.clock ∧
      ∀ t, ({ s with transport := t }.call rangeQuery params elapsed).1 = .crashed) ∨
    (¬ Overflows params s.updates.clock ∧ (∀ q, ¬ Poses params s.updates.clock q) ∧
      ∃ fault, Offence s.published params s.updates.clock rangeQuery fault ∧
        ∀ t, ({ s with transport := t }.call rangeQuery params elapsed).1 = .fault fault) ∨
    (¬ Overflows params s.updates.clock ∧ ∃ q, Poses params s.updates.clock q ∧
      ∀ t, ({ s with transport := t }.call rangeQuery params elapsed).1 =
        { s with transport := fun _ => t (s.database.request q) }.ask q) := by
  have hcall : ∀ t, ({ s with transport := t }.call rangeQuery params elapsed).1 =
      ({ s with transport := t }.perform (rangePlan params s.updates.clock)).1 :=
    fun t => outcome_call { s with transport := t } rangeQuery params elapsed
  simp only [hcall, ← rangePlan_eq_crash_iff]
  rcases rangePlan_cases params s.updates.clock with hplan | ⟨fault, hplan⟩ | ⟨q, hplan, hposes⟩
  · exact .inl ⟨hplan, fun t => by rw [hplan]; rfl⟩
  · have hends : rangePlan params s.updates.clock ≠ .crash := by
      rw [hplan]
      exact Plan.noConfusion
    have hposes : ∀ q, ¬ Poses params s.updates.clock q := by
      intro q h
      rw [rangePlan_of_poses h] at hplan
      cases hplan
    have hoffence : Offence s.published params s.updates.clock rangeQuery fault :=
      offence_of_rangeQuery hplan
    exact .inr (.inl ⟨hends, hposes, fault, hoffence, fun t => by rw [hplan]; rfl⟩)
  · have hends : rangePlan params s.updates.clock ≠ .crash := by
      rw [hplan]
      exact Plan.noConfusion
    exact .inr (.inr ⟨hends, q, hposes, fun t => by rw [hplan]; rfl⟩)

/-- A call whose step is a number beyond all spans. -/
def hugeStep : Json :=
  .object [("query", .string "up"), ("step", .string "1e300")]

/-- A call whose range ends with the first second that there is. -/
def earlyEnd : Json :=
  .object [("query", .string "up"), ("end", .string "-8334601228800")]

theorem range_call_crashed :
    ((offline []).call rangeQuery hugeStep ⟨0, 0⟩).1 = .crashed ∧
      ((offline []).call rangeQuery earlyEnd ⟨0, 0⟩).1 = .crashed := by
  have hbounds : rangeBounds hugeStep ⟨0, 0⟩ = .ok (some ⟨⟨-300, 0⟩, ⟨0, 0⟩⟩) := by decide +kernel
  have hstep : rangeStep hugeStep ⟨⟨-300, 0⟩, ⟨0, 0⟩⟩ = .error (.step .overflow) := by
    decide +kernel
  obtain ⟨_, htext, hlong⟩ := rangeStep_eq_overflow_iff.1 hstep
  have hlast : instant? earlyEnd "end" = .ok (some ⟨-8334601228800, 0⟩) := by decide +kernel
  have hclock : (offline []).updates.clock = ⟨0, 0⟩ := rfl
  constructor
  · rw [outcome_call, rangeQuery_plan, hclock, rangePlan_eq_crash_iff.2]
    · rfl
    · exact .step (by decide +kernel) hbounds (by decide) htext hlong
  · rw [outcome_call, rangeQuery_plan, hclock, rangePlan_eq_crash_iff.2]
    · rfl
    · exact .start (by decide +kernel) hlast (by decide +kernel) (by decide)

end DocWatch.Service
