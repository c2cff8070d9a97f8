import DocWatch.Proofs.Json.Literal
import DocWatch.Proofs.Snapshot
import DocWatch.Tool.Documents

/-!
# How many results a search gives

A search ranks all documents that match and lists the first of them, as many as the limit
among the parameters allows and never more than a hundred. A limit below one is refused.

That holds of limits that are spelled as whole numbers and fit 64 bits with a sign. Any other
limit counts as not given, and ten results are listed, whatever number it stands for: more
than were asked for, or fewer, or some where the limit should be refused.
-/

namespace DocWatch.Tool

open Json (Literal)

variable {params limit : Json} {published : Published} {now : Time.Instant} {query : String}
  {l l' : Literal} {n m : Int} {k : Nat}

/-- The parameters of a search for a query with some limit. -/
structure Asks (params : Json) (query : String) (limit : Json) : Prop where
  query_eq : requiredText params "query" = .ok query
  limit_eq : params.member "limit" = limit

/-- All documents that match a query, from the best one on. -/
def fullRanking (published : Published) (query : String) : List (Hit Float) :=
  published.snapshot.index.hits query

/-- An answer that lists some of the documents that match. -/
def listing (published : Published) (query : String) (hits : List (Hit Float)) : Plan :=
  .result (.ofMembers
    [("query", .string query),
     ("commit", .string published.commit),
     ("results", .array (hits.map hitJson))])

/-- The number of results that an answer lists. -/
def resultCount : Plan → Nat
  | .result value =>
      match value.member "results" with
      | .array items => items.length
      | _ => 0
  | _ => 0

theorem resultCount_listing (hits : List (Hit Float)) :
    resultCount (listing published query hits) = hits.length := by
  have hresults (commit results : Json) :
      (Json.ofMembers [("query", .string query), ("commit", commit),
        ("results", results)]).member "results" = results :=
    rfl
  rw [listing, resultCount, hresults]
  exact List.length_map _

/-! ## What a limit does -/

/-- What a search comes to is decided by the limit as a number of 64 bits. -/
theorem docsSearch_plan (h : Asks params query limit) :
    docsSearch.plan params published now =
      match limit.int64? with
      | none => listing published query ((fullRanking published query).take defaultSearchLimit)
      | some n =>
          if 1 ≤ n then
            listing published query
              ((fullRanking published query).take (min n.toNat maxSearchLimit))
          else .fail .limitTooSmall := by
  simp only [docsSearch, searchBy, h.query_eq, searchLimit, h.limit_eq, Snapshot.search,
    Index.search_eq_take]
  cases limit.int64? with
  | none => rfl
  | some n =>
      dsimp only
      by_cases hn : 1 ≤ n
      · rw [if_pos hn, if_pos hn]
        rfl
      · rw [if_neg hn, if_neg hn]

theorem int64?_of_fits (h : l.Fits n) : (Json.number (.whole n)).int64? = some n := by
  rw [Json.int64?, if_pos h.upper]

theorem plan_of_fits (hfits : l.Fits n) (h : Asks params query (.number (.whole n))) :
    docsSearch.plan params published now =
      if 1 ≤ n then
        listing published query ((fullRanking published query).take (min n.toNat maxSearchLimit))
      else .fail .limitTooSmall := by
  rw [docsSearch_plan h, int64?_of_fits hfits]

/-- A greater limit never lists fewer results. -/
theorem resultCount_le (hfits : l.Fits n) (hfits' : l'.Fits m) (hle : n ≤ m) {params' : Json}
    (h : Asks params query (.number (.whole n))) (h' : Asks params' query (.number (.whole m))) :
    resultCount (docsSearch.plan params published now) ≤
      resultCount (docsSearch.plan params' published now) := by
  rw [plan_of_fits hfits h, plan_of_fits hfits' h']
  by_cases hn : 1 ≤ n
  · rw [if_pos hn, if_pos (by omega), resultCount_listing, resultCount_listing, List.length_take,
      List.length_take]
    omega
  · rw [if_neg hn]
    exact Nat.zero_le _

/-- What calls with a limit have to come to, if it is to be obeyed as the number it stands for. -/
def Obeyed (published : Published) (query : String) (now : Time.Instant) (limit : Json)
    (n : Int) : Prop :=
  ∀ params, Asks params query limit →
    if n < 1 then
      ∃ fault, fault.message = "limit must be >= 1" ∧
        docsSearch.plan params published now = .fail fault
    else
      docsSearch.plan params published now =
        listing published query ((fullRanking published query).take (min n.toNat 100))

theorem obeyed_of_fits (hfits : l.Fits n) :
    Obeyed published query now (.number (.whole n)) n := by
  intro params h
  rw [plan_of_fits hfits h]
  split
  · rename_i hn
    exact ⟨.limitTooSmall, rfl, if_neg (Int.not_le.2 hn)⟩
  · rename_i hn
    exact if_pos (Int.not_lt.1 hn)

/-- A limit is obeyed where it is spelled as a whole number that fits 64 bits with a sign, and among
such limits a greater one never lists fewer results. Any other counts as not given. -/
theorem search_within_limit (hvalue : l.value = n) (published : Published) (query : String)
    (now : Time.Instant) :
    (l.Fits n → ∃ limit, Json.parse? l.text = some limit ∧
      Obeyed published query now limit n ∧
      ∀ (l' : Literal) (m : Int) (limit' : Json), l'.Fits m → n ≤ m →
        Json.parse? l'.text = some limit' →
        ∀ params params', Asks params query limit → Asks params' query limit' →
          resultCount (docsSearch.plan params published now) ≤
            resultCount (docsSearch.plan params' published now)) ∧
    (¬ l.Fits n → ∀ limit params, Json.parse? l.text = some limit → Asks params query limit →
      docsSearch.plan params published now =
        listing published query ((fullRanking published query).take 10)) := by
  constructor
  · intro hfits
    refine ⟨_, hfits.parse?_text, obeyed_of_fits hfits, ?_⟩
    intro l' m limit' hfits' hle hlimit' params params' h h'
    obtain rfl := Option.some.inj (hfits'.parse?_text.symm.trans hlimit')
    exact resultCount_le hfits hfits' hle h h'
  · intro hfits limit params hlimit h
    rw [docsSearch_plan h, Literal.int64?_of_not_fits hvalue hfits hlimit]
    rfl

/-- The number one. -/
def one : Literal where
  negative := false
  whole := ['1']
  fraction? := none
  exponent? := none
  isDigit_of_mem := List.all_eq_true.1 (by decide)
  ne_nil h := by cases h
  fraction_ne_nil := by decide
  noLeadingZero := fun _ => rfl

/-- The parameters of a search for gauges. -/
def gaugesWith (limit : Json) : Json :=
  .object [("query", .string "gauges"), ("limit", limit)]

theorem asks_gaugesWith (limit : Json) : Asks (gaugesWith limit) "gauges" limit where
  query_eq := by
    have htext : text? (gaugesWith limit) "query" = some "gauges" := by
      have hquery : (gaugesWith limit).member "query" = .string "gauges" := rfl
      have htrimmed : Text.trimmed "gauges" = "gauges" := by decide +kernel
      rw [text?, hquery, Json.text?]
      dsimp only
      rw [htrimmed, if_neg (by decide)]
    rw [requiredText, htext]
  limit_eq := rfl

theorem search_within_limit_one :
    ∃ s limit, Snapshot.build Snapshot.manual = .ok s ∧ Json.parse? one.text = some limit ∧
      docsSearch.plan (gaugesWith limit) (.ofSnapshot s "1f0c") ⟨0, 0⟩ =
        listing (.ofSnapshot s "1f0c") "gauges"
          ((fullRanking (.ofSnapshot s "1f0c") "gauges").take 1) := by
  obtain ⟨s, hs⟩ : ∃ s, Snapshot.build Snapshot.manual = .ok s :=
    Snapshot.exists_build (by decide +kernel)
  have hvalue : one.value = (1 : Int) := Json.Literal.value_of_tail rfl
  have hfits : one.Fits 1 := by
    refine ⟨rfl, fun hnegative => ?_, hvalue, by decide, by decide⟩
    cases hnegative
  obtain ⟨limit, hlimit, hobeyed, -⟩ :=
    (search_within_limit hvalue (.ofSnapshot s "1f0c") "gauges" ⟨0, 0⟩).1 hfits
  exact ⟨s, limit, hs, hlimit, hobeyed _ (asks_gaugesWith limit)⟩

/-- The greatest number below those that fit. -/
def belowAll : Literal where
  negative := true
  whole :=
    ['9', '2', '2', '3', '3', '7', '2', '0', '3', '6', '8', '5', '4', '7', '7', '5', '8', '0', '9']
  fraction? := none
  exponent? := none
  isDigit_of_mem := List.all_eq_true.1 (by decide)
  ne_nil := by decide
  fraction_ne_nil := by decide
  noLeadingZero := by decide

/-- A limit below all that fit is not refused. -/
theorem belowAll_not_refused :
    ∃ limit, Json.parse? belowAll.text = some limit ∧
      belowAll.value = (-9223372036854775809 : Int) ∧
      ¬ Obeyed .nothing "gauges" ⟨0, 0⟩ limit (-9223372036854775809) := by
  have hvalue : belowAll.value = (-9223372036854775809 : Int) :=
    Json.Literal.value_of_tail rfl
  obtain ⟨limit, hlimit⟩ : ∃ limit, Json.parse? belowAll.text = some limit :=
    Option.isSome_iff_exists.1 (by decide +kernel)
  refine ⟨limit, hlimit, hvalue, fun hobeyed => ?_⟩
  have hfits : ¬ belowAll.Fits (-9223372036854775809) := by
    intro hfits
    have := hfits.lower
    revert this
    decide
  obtain ⟨fault, -, hfault⟩ := hobeyed _ (asks_gaugesWith limit)
  rw [docsSearch_plan (asks_gaugesWith limit),
    Json.Literal.int64?_of_not_fits hvalue hfits hlimit] at hfault
  cases hfault

end DocWatch.Tool
