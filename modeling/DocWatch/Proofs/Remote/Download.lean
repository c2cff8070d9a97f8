import DocWatch.Remote.Download

/-!
# No more of a body than allowed

A body is passed on part by part, and a count runs along. Nothing is ever taken off
the count, by a failure no more than by a part that was held back, so at every part it
is the number of bytes of all the data up to the end of that part, and once it is
beyond the limit it stays there. Whoever goes on reading behind a failure therefore
still gets the data in its order and from its beginning, and never more than the
limit, whatever length the answer declared.

The count is a natural number. One of 64 bits is the same for every body that has fewer
than 2^64 bytes.
-/

namespace DocWatch

/-- The data in a part of a body. -/
def Net.Part.data? : Net.Part → Option Bytes
  | .data bytes => some bytes
  | .failed _ => none

/-- The data of a body, whatever failures stand between. -/
def Net.dataOf (body : List Net.Part) : List Bytes :=
  body.filterMap Net.Part.data?

/-- The data in a piece of a download. -/
def Archive.Piece.data? : Archive.Piece → Option Bytes
  | .data bytes => some bytes
  | .failure _ => none

/-- The data that a download hands out to a reader who goes on behind its failures. -/
def Archive.Feed.handedOut (feed : Archive.Feed) : List Bytes :=
  feed.filterMap Archive.Piece.data?

/-- How many bytes there are in data that came in pieces. -/
def byteCount (data : List Bytes) : Nat :=
  total (data.map List.length)

namespace Download

open Net Archive.Feed

/-- What is passed on of a part, given the number of bytes up to its end. -/
def passed (limit count : Nat) : Part → Archive.Piece
  | .data bytes => if count ≤ limit then .data bytes else .failure (.abort (.tooLarge limit))
  | .failed f => .failure (.abort (.transport f.text))

variable {limit seen : Nat} {body rest : List Part} {bytes : Bytes}

theorem byteCount_cons (bytes : Bytes) (data : List Bytes) :
    byteCount (bytes :: data) = bytes.length + byteCount data :=
  rfl

theorem dataOf_data : dataOf (.data bytes :: rest) = bytes :: dataOf rest :=
  rfl

theorem dataOf_failed {f : Failure} : dataOf (.failed f :: rest) = dataOf rest :=
  rfl

theorem boundedFrom_within (h : seen + bytes.length ≤ limit) :
    boundedFrom limit seen (.data bytes :: rest) =
      .data bytes :: boundedFrom limit (seen + bytes.length) rest := by
  rw [boundedFrom, if_pos h]

theorem boundedFrom_beyond (h : limit < seen + bytes.length) :
    boundedFrom limit seen (.data bytes :: rest) =
      .failure (.abort (.tooLarge limit)) :: boundedFrom limit (seen + bytes.length) rest := by
  rw [boundedFrom, if_neg (Nat.not_le.2 h)]

theorem getElem?_boundedFrom (i : Nat) :
    (boundedFrom limit seen body)[i]? =
      body[i]?.map (passed limit (seen + byteCount (dataOf (body.take (i + 1))))) := by
  induction body generalizing seen i with
  | nil => rfl
  | cons part rest ih =>
      cases part with
      | failed f =>
          cases i with
          | zero => rfl
          | succ i =>
              rw [boundedFrom, List.getElem?_cons_succ, List.getElem?_cons_succ, ih,
                List.take_succ_cons, dataOf_failed]
      | data bytes =>
          rw [List.take_succ_cons, dataOf_data, byteCount_cons]
          cases i with
          | zero => rfl
          | succ i =>
              rw [boundedFrom, List.getElem?_cons_succ, List.getElem?_cons_succ, ih,
                Nat.add_assoc]

theorem take_boundedFrom (n : Nat) :
    (boundedFrom limit seen body).take n = boundedFrom limit seen (body.take n) := by
  induction body generalizing seen n with
  | nil => rw [List.take_nil, boundedFrom, List.take_nil]
  | cons part rest ih =>
      cases n with
      | zero => rfl
      | succ n =>
          cases part <;> rw [List.take_succ_cons, boundedFrom, boundedFrom, List.take_succ_cons, ih]

/-- Behind the limit nothing passes, not even a part without bytes. -/
theorem handedOut_of_beyond (h : limit < seen) : (boundedFrom limit seen body).handedOut = [] := by
  induction body generalizing seen with
  | nil => rfl
  | cons part rest ih =>
      cases part with
      | failed f => exact ih h
      | data bytes =>
          have hbeyond : limit < seen + bytes.length := Nat.lt_add_right _ h
          rw [boundedFrom_beyond hbeyond]
          exact ih hbeyond

/-- What passes is the beginning of the data, as far as it stays within the limit. -/
theorem handedOut_boundedFrom (h : seen ≤ limit) :
    (boundedFrom limit seen body).handedOut <+: dataOf body ∧
      seen + byteCount (boundedFrom limit seen body).handedOut ≤ limit := by
  induction body generalizing seen with
  | nil => exact ⟨List.prefix_rfl, h⟩
  | cons part rest ih =>
      cases part with
      | failed f => exact ih h
      | data bytes =>
          rcases Nat.lt_or_ge limit (seen + bytes.length) with hbeyond | hwithin
          · have hnone : (boundedFrom limit seen (.data bytes :: rest)).handedOut = [] := by
              rw [boundedFrom_beyond hbeyond]
              exact handedOut_of_beyond hbeyond
            rw [hnone]
            exact ⟨List.nil_prefix, h⟩
          · obtain ⟨hfrom, hcount⟩ := ih hwithin
            have hdata : (boundedFrom limit seen (.data bytes :: rest)).handedOut =
                bytes :: (boundedFrom limit (seen + bytes.length) rest).handedOut := by
              rw [boundedFrom_within hwithin]
              rfl
            rw [hdata, dataOf_data, byteCount_cons, ← Nat.add_assoc]
            exact ⟨List.prefix_cons_inj bytes |>.2 hfrom, hcount⟩

/-- An answer is read as a body only if it succeeded and declared no length beyond the limit. -/
theorem ofResponse_eq_ok_iff {r : Response} {feed : Archive.Feed} :
    ofResponse limit r = .ok feed ↔
      (200 ≤ r.status ∧ r.status < 300) ∧ (∀ length ∈ r.declaredLength, length ≤ limit) ∧
        feed = bounded limit r.body := by
  have hsuccess : r.isSuccess = true ↔ 200 ≤ r.status ∧ r.status < 300 := by
    simp [Response.isSuccess]
  rw [← hsuccess, ofResponse]
  cases r.isSuccess with
  | false => simp
  | true =>
      cases r.declaredLength with
      | none => simp [eq_comm]
      | some length =>
          by_cases hlong : limit < length
          · simp [hlong, Nat.not_le.2 hlong]
          · simp [hlong, Nat.not_lt.1 hlong, eq_comm]

/-- Every part of a body is passed on, or held back as too large, by the number of bytes up to its
end. However far the reading goes, what is handed out is the beginning of the data and no more than
the limit, and of an answer that failed or declared too great a length it is nothing. -/
theorem passed_within_limit (limit : Nat) :
    (∀ body : List Part,
      (∀ i, (bounded limit body)[i]? =
        body[i]?.map (passed limit (byteCount (dataOf (body.take (i + 1)))))) ∧
      ∀ n, handedOut ((bounded limit body).take n) <+: dataOf (body.take n) ∧
        byteCount (handedOut ((bounded limit body).take n)) ≤ limit) ∧
    ∀ (t : Transport) (cancelled : Bool) (request : Request) (feed : Archive.Feed),
      fetch t limit cancelled request = .ok feed ↔
        cancelled = false ∧ ∃ r, t request = .answered r ∧
          (200 ≤ r.status ∧ r.status < 300) ∧ (∀ length ∈ r.declaredLength, length ≤ limit) ∧
          feed = bounded limit r.body := by
  refine ⟨fun body => ⟨fun i => ?_, fun n => ?_⟩, fun t cancelled request feed => ?_⟩
  · rw [bounded, getElem?_boundedFrom, Nat.zero_add]
  · rw [bounded, take_boundedFrom]
    have hpassed := @handedOut_boundedFrom limit 0 (body.take n) (Nat.zero_le limit)
    rwa [Nat.zero_add] at hpassed
  · rw [fetch]
    cases cancelled with
    | true => simp
    | false =>
        cases t request with
        | failed f => simp [ofExchange]
        | answered r => simp [ofExchange, ofResponse_eq_ok_iff]

end Download

end DocWatch
