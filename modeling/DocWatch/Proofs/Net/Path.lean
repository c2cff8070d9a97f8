import DocWatch.Net.Url
import DocWatch.Proofs.Text.Trim
import Mathlib.Data.List.Infix

/-!
# Paths of addresses

Steps in a path are taken segment by segment, and a path is its segments again with
a slash before each. So the segments of a path that has been read are known: each is
a segment of the path as it was written, escaped where it has to be, and none is a
step, apart from an empty one for a step at the end. A path without steps and
without anything to escape is read as it is.
-/

namespace DocWatch.Net.Url

variable {passed segments : List (List Char)} {segment path : List Char}

/-! ## Segments -/

theorem joined_splitBy (path : List Char) :
    joined (Text.splitBy (· = '/') path) = '/' :: path := by
  induction path with
  | nil => rfl
  | cons c rest ih =>
      rw [Text.splitBy]
      split
      · rename_i hc
        rw [decide_eq_true_eq] at hc
        rw [joined, List.flatMap_cons, hc]
        exact congrArg ('/' :: ·) ih
      · split
        · rename_i hnil
          rw [hnil] at ih
          cases ih
        · rename_i piece more hpieces
          rw [hpieces, joined, List.flatMap_cons] at ih
          rw [joined, List.flatMap_cons, List.cons_append, List.cons_append]
          exact congrArg (fun s => '/' :: c :: s) (List.cons.inj ih).2

theorem splitBy_append {more : List (List Char)} (hsegment : '/' ∉ segment)
    (h : Text.splitBy (· = '/') path = [] :: more) :
    Text.splitBy (· = '/') (segment ++ path) = segment :: more := by
  induction segment with
  | nil => exact h
  | cons c rest ih =>
      rw [List.mem_cons, not_or] at hsegment
      have hc : ¬ decide (c = '/') = true := fun hslash =>
        hsegment.1 (of_decide_eq_true hslash).symm
      rw [List.cons_append, Text.splitBy, if_neg hc, ih hsegment.2]

theorem splitBy_joined (h : ∀ s ∈ segment :: segments, '/' ∉ s) :
    Text.splitBy (· = '/') (segment ++ joined segments) = segment :: segments := by
  induction segments generalizing segment with
  | nil => exact splitBy_append (h _ List.mem_cons_self) rfl
  | cons next more ih =>
      refine splitBy_append (h _ List.mem_cons_self) ?_
      exact congrArg ([] :: ·) (ih fun s hs => h s (List.mem_cons_of_mem _ hs))

/-- Without the slashes at its front a path has its last segments left. -/
theorem splitBy_dropWhile_suffix (path : List Char) :
    Text.splitBy (· = '/') (path.dropWhile (· = '/')) <:+ Text.splitBy (· = '/') path := by
  induction path with
  | nil => exact List.suffix_rfl
  | cons c rest ih =>
      rw [List.dropWhile_cons]
      split
      · rename_i hc
        rw [Text.splitBy, if_pos hc]
        exact ih.trans (List.suffix_cons _ _)
      · exact List.suffix_rfl

/-- Cut at its slashes, a path without those at its front gives back segments that
it was joined from. -/
theorem mem_splitBy_dropWhile_joined (h : ∀ s ∈ segments, '/' ∉ s)
    (hmem : segment ∈ Text.splitBy (· = '/') ((joined segments).dropWhile (· = '/'))) :
    segment = [] ∨ segment ∈ segments := by
  have hpieces := (splitBy_dropWhile_suffix (joined segments)).subset hmem
  cases segments with
  | nil => exact .inl (List.mem_singleton.1 hpieces)
  | cons first more =>
      change segment ∈ [] :: Text.splitBy (· = '/') (first ++ joined more) at hpieces
      rw [splitBy_joined h] at hpieces
      exact List.mem_cons.1 hpieces

theorem mem_joined {c : Char} (h : c ∈ joined segments) : c = '/' ∨ ∃ s ∈ segments, c ∈ s := by
  obtain ⟨s, hs, hc⟩ := List.mem_flatMap.1 h
  exact (List.mem_cons.1 hc).imp_right fun hc => ⟨s, hs, hc⟩

/-! ## Steps -/

theorem percentEncode_eq_self {escaped : Char → Bool} {s : List Char}
    (h : ∀ c ∈ s, escaped c = false) : percentEncode escaped s = s := by
  induction s with
  | nil => rfl
  | cons c rest ih =>
      rw [percentEncode, List.flatMap_cons, h c List.mem_cons_self]
      exact congrArg (c :: ·) (ih fun d hd => h d (List.mem_cons_of_mem _ hd))

/-- A segment that is no step and has nothing to escape. -/
structure Steady (segment : List Char) : Prop where
  notHere : isHere segment = false
  notUp : isUp segment = false
  plain : percentEncode isEscapedInPath segment = segment

theorem resolve_of_steady (h : ∀ segment ∈ segments, Steady segment) :
    resolve passed segments = passed.reverse ++ segments := by
  fun_induction resolve passed segments with
  | case1 passed => exact (List.append_nil _).symm
  | case2 passed segment hup =>
      rw [(h _ List.mem_cons_self).notUp] at hup
      cases hup
  | case3 passed segment _ hhere =>
      rw [(h _ List.mem_cons_self).notHere] at hhere
      cases hhere
  | case4 passed segment =>
      rw [(h _ List.mem_cons_self).plain, List.reverse_cons]
  | case5 passed segment rest _ hup =>
      rw [(h _ List.mem_cons_self).notUp] at hup
      cases hup
  | case6 passed segment rest _ _ hhere =>
      rw [(h _ List.mem_cons_self).notHere] at hhere
      cases hhere
  | case7 passed segment rest _ _ _ ih =>
      rw [ih fun s hs => h s (List.mem_cons_of_mem _ hs), (h _ List.mem_cons_self).plain,
        List.reverse_cons, List.append_assoc]
      rfl

theorem mem_of_mem_stepUp (h : segment ∈ stepUp passed) : segment ∈ passed := by
  rw [stepUp.eq_def] at h
  split at h
  · cases h
  · split at h
    · exact h
    · exact List.mem_cons_of_mem _ h

/-- A segment is one of some that is no step, escaped where it has to be. -/
def Remains (segments : List (List Char)) (segment : List Char) : Prop :=
  ∃ s ∈ segments, isHere s = false ∧ isUp s = false ∧ segment = percentEncode isEscapedInPath s

theorem Remains.behind {first : List Char} (h : Remains segments segment) :
    Remains (first :: segments) segment := by
  obtain ⟨s, hs, hsteady⟩ := h
  exact ⟨s, List.mem_cons_of_mem _ hs, hsteady⟩

theorem remains_first {first : List Char} (hup : ¬ isUp first = true)
    (hhere : ¬ isHere first = true) :
    Remains (first :: segments) (percentEncode isEscapedInPath first) :=
  ⟨first, List.mem_cons_self, Bool.eq_false_iff.2 hhere, Bool.eq_false_iff.2 hup, rfl⟩

/-- Where the segments of a path that has been read are from. -/
theorem mem_resolve (h : segment ∈ resolve passed segments) :
    segment ∈ passed ∨ segment = [] ∨ Remains segments segment := by
  fun_induction resolve passed segments with
  | case1 passed => exact .inl (List.mem_reverse.1 h)
  | case2 passed s hup =>
      rcases List.mem_cons.1 (List.mem_reverse.1 h) with rfl | h
      · exact .inr (.inl rfl)
      · exact .inl (mem_of_mem_stepUp h)
  | case3 passed s _ hhere =>
      rcases List.mem_cons.1 (List.mem_reverse.1 h) with rfl | h
      · exact .inr (.inl rfl)
      · exact .inl h
  | case4 passed s hup hhere =>
      rcases List.mem_cons.1 (List.mem_reverse.1 h) with rfl | h
      · exact .inr (.inr (remains_first hup hhere))
      · exact .inl h
  | case5 passed s rest _ hup ih => exact (ih h).imp mem_of_mem_stepUp (Or.imp_right .behind)
  | case6 passed s rest _ hup hhere ih => exact (ih h).imp_right (Or.imp_right .behind)
  | case7 passed s rest _ hup hhere ih =>
      rcases ih h with h | h
      · rcases List.mem_cons.1 h with rfl | h
        · exact .inr (.inr (remains_first hup hhere))
        · exact .inl h
      · exact .inr (h.imp_right .behind)

/-! ## Reading -/

/-- The part of a text that belongs to the path of an address. -/
def beforeQuery (s : List Char) : List Char :=
  s.takeWhile fun c => c ≠ '?' && c ≠ '#'

theorem readPath_slash (s : List Char) :
    readPath false ('/' :: s) = joined (resolve [] (Text.splitBy (· = '/') (beforeQuery s))) := by
  have hslash : (fun c : Char => decide (c = '/') || (false && decide (c = '\\'))) =
      (· = '/') := by
    funext c
    rw [Bool.false_and, Bool.or_false]
  change joined (resolve [] (Text.splitBy
    (fun c : Char => decide (c = '/') || (false && decide (c = '\\'))) (beforeQuery s))) = _
  rw [hslash]

theorem cleaned_eq_self {s : List Char} (h : ∀ c ∈ s, 32 < c.toNat) : cleaned s = s := by
  have htrim : Text.trimBy (fun c => c.toNat ≤ 32) s = s :=
    Text.trimBy_eq_self fun c hc => decide_eq_false (Nat.not_le.2 (h c hc))
  have hne : ∀ c ∈ s, ∀ d : Char, d.toNat ≤ 32 → c ≠ d := by
    rintro c hc d hd rfl
    exact absurd (h c hc) (Nat.not_lt.2 hd)
  rw [cleaned, htrim, List.filter_eq_self]
  intro c hc
  simp only [Bool.and_eq_true, decide_eq_true_eq]
  exact ⟨⟨hne c hc _ (by decide), hne c hc _ (by decide)⟩, hne c hc _ (by decide)⟩

end DocWatch.Net.Url
