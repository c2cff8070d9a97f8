import DocWatch.Proofs.Text.Trim
import DocWatch.Time.Span

/-!
# Why a text is no span

A text that is no span is refused for one reason, and the reason cites the text,
trimmed, and nothing else: even the unit that is not known is a part of it.

A text can also stand for a span that is too long. That is seen as soon as the
components read so far come to `2 ^ 64` seconds, before anything is made of what
follows them, so that the rest of such a text need not be in order.
-/

namespace DocWatch.Time.Span

/-- A trimmed text stands for a span that cannot be represented, or its first
components do. -/
inductive TooLong (s : List Char) : Prop where
  | number {negative : Bool} {m : Nat} {e : Int}
      (h : Binary64.read? s = some (.finite negative m e))
      (hpos : (Binary64.finite negative m e).isPositive = true)
      (hlong : limit * (Binary64.Ratio.ofBinary m e).den ≤ (Binary64.Ratio.ofBinary m e).num)
  | components (h : Binary64.read? s = none)
      (hlong : limit * 1000 ≤ totalMillis (components s).1)

/-- The ways in which a trimmed text is refused. -/
inductive Refused (s : List Char) : SpanFault → Prop where
  | empty (h : s = []) : Refused s .empty
  | notPositive : Refused s (.notPositive (String.ofList s))
  | malformed : Refused s (.malformed (String.ofList s))
  | countTooLarge (h : (components s).2 = some .countTooLarge) : Refused s .countTooLarge
  | unknownUnit {unit : String} (part : unit.toList <:+: s)
      (letters : ∀ c ∈ unit.toList, c.isAlpha = true) :
      Refused s (.unknownUnit unit (String.ofList s))
  | tooLong (h : TooLong s) : Refused s .overflow

theorem unit_of_components {s : List Char} {unit : String}
    (h : (components s).2 = some (.unknownUnit unit)) :
    unit.toList <:+: s ∧ ∀ c ∈ unit.toList, c.isAlpha = true := by
  fun_induction components s with
  | case1 | case2 | case5 => cases h
  | case3 c rest hdigit count behind hcount hunknown =>
      cases h
      rw [String.toList_ofList]
      have hbehind : behind <:+ rest := List.dropWhile_suffix _
      refine ⟨(List.takeWhile_prefix _).isInfix.trans ?_, fun d hd => ?_⟩
      · exact (hbehind.trans (List.suffix_cons c rest)).isInfix
      · exact List.mem_takeWhile_imp hd
  | case4 c rest hdigit count behind hcount known hknown more stop hmore ih =>
      rw [hmore] at ih
      obtain ⟨hpart, hletters⟩ := ih h
      have hbehind : behind <:+ rest := List.dropWhile_suffix _
      refine ⟨hpart.trans ?_, hletters⟩
      exact ((List.dropWhile_suffix _).trans (hbehind.trans (List.suffix_cons c rest))).isInfix

theorem refused_of_ofComponents {s : List Char} {fault : SpanFault}
    (hread : Binary64.read? s = none) (h : ofComponents s = .error fault) : Refused s fault := by
  rw [ofComponents] at h
  have hunit := @unit_of_components s
  have hcount : (components s).2 = some .countTooLarge → Refused s .countTooLarge :=
    .countTooLarge
  have hlong : limit * 1000 ≤ totalMillis (components s).1 → TooLong s := .components hread
  generalize components s = parts at h hunit hcount hlong
  obtain ⟨cs, stop⟩ := parts
  dsimp only at h
  split at h
  · rename_i hlimit
    cases h
    refine .tooLong (hlong ?_)
    have := Nat.div_mul_le_self (totalMillis cs) 1000
    exact Nat.le_trans (Nat.mul_le_mul_right 1000 hlimit) this
  · split at h
    · cases h
      exact .malformed
    · cases h
      exact hcount rfl
    · rename_i unit
      cases h
      exact .unknownUnit (hunit rfl).1 (hunit rfl).2
    · split at h
      · cases h
        exact .notPositive
      · cases h

theorem ofSeconds_eq_overflow_iff {negative : Bool} {m : Nat} {e : Int} :
    ofSeconds (.finite negative m e) = .error .overflow ↔
      limit * (Binary64.Ratio.ofBinary m e).den ≤ (Binary64.Ratio.ofBinary m e).num := by
  rw [ofSeconds]
  split
  · rename_i h
    exact ⟨fun _ => h, fun _ => rfl⟩
  · rename_i h
    exact ⟨nofun, fun h' => absurd h' h⟩

theorem refused_of_ofSeconds {s : List Char} {x : Binary64} {fault : SpanFault}
    (hread : Binary64.read? s = some x) (hfinite : x.isFinite = true)
    (hpos : x.isPositive = true) (h : ofSeconds x = .error fault) : Refused s fault := by
  cases x with
  | nan | infinite => cases hfinite
  | finite negative m e =>
      have hfault : fault = .overflow := by
        rw [ofSeconds] at h
        split at h
        · cases h
          rfl
        · cases h
      rw [hfault] at h ⊢
      exact .tooLong (.number hread hpos (ofSeconds_eq_overflow_iff.1 h))

theorem refused_of_parse {text : String} {fault : SpanFault} (h : parse text = .error fault) :
    Refused (Text.trim text.toList) fault := by
  rw [parse] at h
  split at h
  · rename_i x hread
    split at h
    · rename_i hnumber
      exact refused_of_ofSeconds hread hnumber.1 hnumber.2 h
    · cases h
      exact .notPositive
  · rename_i hread
    split at h
    · rename_i hempty
      cases h
      exact .empty hempty
    · exact refused_of_ofComponents hread h

theorem TooLong.parse_eq {text : String} (h : TooLong (Text.trim text.toList)) :
    parse text = .error .overflow := by
  rw [parse]
  cases h with
  | @number negative m e hread hpos hlong =>
      simp only [hread, Binary64.isFinite, hpos, and_self, if_true]
      exact ofSeconds_eq_overflow_iff.2 hlong
  | components hread hlong =>
      have hne : Text.trim text.toList ≠ [] := by
        intro hnil
        rw [hnil, Span.components] at hlong
        exact absurd hlong (by decide)
      have hlimit : limit ≤ totalMillis (Span.components (Text.trim text.toList)).1 / 1000 :=
        (Nat.le_div_iff_mul_le (by decide)).2 hlong
      simp only [hread, if_neg hne, ofComponents]
      rw [if_pos hlimit]

theorem parse_eq_overflow_iff {text : String} :
    parse text = .error .overflow ↔ TooLong (Text.trim text.toList) := by
  refine ⟨fun h => ?_, TooLong.parse_eq⟩
  cases refused_of_parse h with
  | tooLong h => exact h

end DocWatch.Time.Span
