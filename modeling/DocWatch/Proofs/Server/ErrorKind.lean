import DocWatch.Proofs.Text.Infix
import DocWatch.Proofs.Text.Quoted
import DocWatch.Server.ErrorKind
import DocWatch.Tool.Basic

/-!
# Kinds of faults that cite foreign text

The kind of a fault is read off its text, and part of that text may come from the
caller. All the texts that cite something have a phrase of their own that makes
them a fault of the caller. But two phrases are looked for before, and where the
cited text holds one of them, it decides the kind (`citedKind`). Nothing else in
the cited text does, and no phrase comes about where it meets the words around it.
-/

namespace DocWatch.Server

/-- The kind of a fault that cites some text. -/
def citedKind (text : String) : ErrorKind :=
  if Text.holds text "document not found" then .notFound
  else if Text.holds text "disabled" then .updatesDisabled
  else .badRequest

/-- The phrases of a fault of the caller. -/
def callerPhrases : List String :=
  ["must not be", "must be", "failed to parse", "invalid"]

/-- The kind of the first phrase that a text holds. -/
def phraseKind (text : String) : ErrorKind :=
  match phrases.find? fun (phrase, _) => Text.holds text phrase with
  | some (_, kind) => kind
  | none => .toolError

theorem phraseKind_eq (text : String) :
    phraseKind text =
      if Text.holds text "document not found" then .notFound
      else if Text.holds text "disabled" then .updatesDisabled
      else if callerPhrases.any (Text.holds text) then .badRequest
      else if Text.holds text "timed out" then .timeout
      else .toolError := by
  rw [phraseKind]
  generalize Text.holds text = holds
  have hany : callerPhrases.any holds = (holds "must not be" || (holds "must be" ||
      (holds "failed to parse" || (holds "invalid" || false)))) := rfl
  rw [hany]
  simp only [phrases, List.find?_cons, List.find?_nil]
  generalize holds "document not found" = first
  generalize holds "disabled" = second
  generalize holds "must not be" = third
  generalize holds "must be" = fourth
  generalize holds "failed to parse" = fifth
  generalize holds "invalid" = sixth
  generalize holds "timed out" = seventh
  revert first second third fourth fifth sixth seventh
  decide

namespace ErrorKind

variable {message text : String}

/-- The phrases in the order in which they decide. -/
theorem ofText_eq (message : String) :
    ofText message =
      if Text.startsWith updatePhrase.toList message.toList then .toolError
      else if Text.holds message "document not found" then .notFound
      else if Text.holds message "disabled" then .updatesDisabled
      else if callerPhrases.any (Text.holds message) then .badRequest
      else if Text.holds message "timed out" then .timeout
      else .toolError := by
  rw [← phraseKind_eq]
  rfl

/-- A message is judged by the text that it cites, if it has the same of the two
phrases that come first, and a phrase of its own. -/
theorem ofText_of_cited (hstart : Text.startsWith updatePhrase.toList message.toList = false)
    (hdoc : Text.holds message "document not found" = Text.holds text "document not found")
    (hdisabled : Text.holds message "disabled" = Text.holds text "disabled")
    (hown : callerPhrases.any (Text.holds message) = true) : ofText message = citedKind text := by
  rw [ofText_eq, citedKind, hstart, hdoc, hdisabled, hown]
  rfl

end ErrorKind

/-! ## Citing

The words around a piece of text are compared with the phrases once and for all. -/

section

variable {message text : String} {words tail : List Char}

theorem startsWith_words {needle : List Char} (h : Text.startsWith needle words = false)
    (h' : Text.startsWith words needle = false) (rest : List Char) :
    Text.startsWith needle (words ++ rest) = false := by
  rw [← Bool.not_eq_true, Text.startsWith_iff] at h h' ⊢
  intro hinitial
  rcases List.prefix_or_prefix_of_prefix hinitial (List.prefix_append words rest) with hle | hle
  · exact h hle
  · exact h' hle

theorem holds_cited {phrase : String} (h : message.toList = words ++ text.toList ++ tail)
    (hwords : Text.Clashes phrase.toList words)
    (htail : Text.Clashes phrase.toList.reverse tail.reverse) :
    Text.holds message phrase = Text.holds text phrase := by
  rw [Bool.eq_iff_iff, Text.holds_iff, Text.holds_iff, h, htail.append_infix,
    hwords.infix_append]

theorem any_holds_words (h : message.toList = words ++ text.toList ++ tail)
    (hown : callerPhrases.any (fun phrase => Text.occurs phrase.toList words) = true) :
    callerPhrases.any (Text.holds message) = true := by
  obtain ⟨phrase, hmem, hphrase⟩ := List.any_eq_true.1 hown
  refine List.any_eq_true.2 ⟨phrase, hmem, ?_⟩
  rw [Text.holds_iff, h, List.append_assoc]
  exact (Text.occurs_iff.1 hphrase).trans (List.prefix_append _ _).isInfix

/-- What the words around a piece of text must be like for it to decide the kind. -/
structure Neutral (words tail : List Char) : Prop where
  start : Text.startsWith updatePhrase.toList words = false ∧
    Text.startsWith words updatePhrase.toList = false
  document : Text.Clashes "document not found".toList words ∧
    Text.Clashes "document not found".toList.reverse tail.reverse
  disabled : Text.Clashes "disabled".toList words ∧
    Text.Clashes "disabled".toList.reverse tail.reverse
  own : callerPhrases.any (fun phrase => Text.occurs phrase.toList words) = true

theorem Neutral.ofText (hneutral : Neutral words tail)
    (h : message.toList = words ++ text.toList ++ tail) :
    ErrorKind.ofText message = citedKind text := by
  refine ErrorKind.ofText_of_cited ?_ (holds_cited h hneutral.document.1 hneutral.document.2)
    (holds_cited h hneutral.disabled.1 hneutral.disabled.2) (any_holds_words h hneutral.own)
  rw [h, List.append_assoc]
  exact startsWith_words hneutral.start.1 hneutral.start.2 _

end

theorem ofText_timestamp (fault : Time.TimestampFault) :
    ErrorKind.ofText fault.message = citedKind fault.text := by
  have hneutral : Neutral "failed to parse ".toList " to timestamp".toList :=
    ⟨by decide, by decide, by decide, by decide⟩
  refine hneutral.ofText ?_
  change ("failed to parse " ++ fault.text ++ " to timestamp").toList = _
  rw [String.toList_append, String.toList_append]

theorem ofText_notPositive (text : String) :
    ErrorKind.ofText (Time.SpanFault.message (.notPositive text)) = citedKind text := by
  have hneutral : Neutral "duration must be positive: ".toList [] :=
    ⟨by decide, by decide, by decide, by decide⟩
  exact hneutral.ofText (String.toList_append.trans (List.append_nil _).symm)

theorem ofText_malformed (text : String) :
    ErrorKind.ofText (Time.SpanFault.message (.malformed text)) = citedKind text := by
  have hneutral : Neutral "invalid duration: ".toList [] :=
    ⟨by decide, by decide, by decide, by decide⟩
  exact hneutral.ofText (String.toList_append.trans (List.append_nil _).symm)

section

variable {unit text : String}

theorem toList_unknownUnit (hletters : ∀ c ∈ unit.toList, c.isAlpha = true) :
    (Time.SpanFault.message (.unknownUnit unit text)).toList =
      "invalid duration unit ".toList ++
        '"' :: (unit.toList ++ '"' :: (" in ".toList ++ text.toList)) := by
  have h : (Time.SpanFault.message (.unknownUnit unit text)).toList =
      "invalid duration unit ".toList ++ Text.quoted unit.toList ++
        " in ".toList ++ text.toList := by
    change ("invalid duration unit " ++ String.ofList (Text.quoted unit.toList) ++ " in " ++
      text).toList = _
    rw [String.toList_append, String.toList_append, String.toList_append,
      @String.toList_ofList (Text.quoted unit.toList)]
  rw [h, Text.quoted_of_letters hletters]
  simp only [List.cons_append, List.append_assoc, List.nil_append]

/-- The unit is a part of the text, and the quotes keep it apart. -/
theorem holds_unknownUnit {phrase : String} (hunit : unit.toList <:+: text.toList)
    (hletters : ∀ c ∈ unit.toList, c.isAlpha = true) (hquote : '"' ∉ phrase.toList)
    (hwords : Text.occurs phrase.toList "invalid duration unit ".toList = false)
    (hin : Text.Clashes phrase.toList " in ".toList) :
    Text.holds (Time.SpanFault.message (.unknownUnit unit text)) phrase =
      Text.holds text phrase := by
  rw [Bool.eq_iff_iff, Text.holds_iff, Text.holds_iff, toList_unknownUnit hletters,
    Text.infix_append_cons_iff hquote, Text.infix_append_cons_iff hquote, hin.infix_append]
  constructor
  · rintro (hleft | hunit' | htext)
    · rw [← Text.occurs_iff, hwords] at hleft
      cases hleft
    · exact hunit'.trans hunit
    · exact htext
  · exact fun htext => .inr (.inr htext)

theorem ofText_unknownUnit (hunit : unit.toList <:+: text.toList)
    (hletters : ∀ c ∈ unit.toList, c.isAlpha = true) :
    ErrorKind.ofText (Time.SpanFault.message (.unknownUnit unit text)) = citedKind text := by
  refine ErrorKind.ofText_of_cited ?_
    (holds_unknownUnit hunit hletters (by decide) (by decide) (by decide))
    (holds_unknownUnit hunit hletters (by decide) (by decide) (by decide))
    (List.any_eq_true.2 ⟨"invalid", by decide, ?_⟩)
  · rw [toList_unknownUnit hletters]
    exact startsWith_words (by decide) (by decide) _
  · rw [Text.holds_iff, toList_unknownUnit hletters]
    exact (Text.occurs_iff.1 (by decide :
      Text.occurs "invalid".toList "invalid duration unit ".toList = true)).trans
        (List.prefix_append _ _).isInfix

end

end DocWatch.Server
