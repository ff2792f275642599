import TapeMachine.Document.Parse
import TapeMachine.Proofs.Yaml.Cause
import TapeMachine.Proofs.Yaml.Messages

/-!
# What a text that cannot be read is answered

Whether an integer is to blame is found out from the message: the error for one is answered where the words
about one are found in it.  They are in the message about every such integer, and in that about anything else
only if a text of the document has them that the message shows.  So a text is answered by its cause as long as
no key or scalar in the message looks like the message itself.
-/

namespace TapeMachine

open Yaml (ReadError Path Mark opening)

namespace Spec

/-! ## The message about a wide integer -/

/-- The error about an integer that is too wide as the value of the input. -/
def inputError (problem : String) : SpecError where
  reason := .invalidInputType
  problem := some problem
  info := some inputInfo
  suggestion := some inputSuggestion

/-- The error about an integer that is too wide anywhere else. -/
def symbolError (problem : String) : SpecError where
  reason := .invalidSymbol
  problem := some problem
  suggestion := some quoteSuggestion

/-- The error about the integer at the path. -/
def wideError (path : Path) (i : Int) : SpecError :=
  if Text.trimEndMarks ": ".toList path.heading.toList = "input".toList then inputError (toString i)
  else symbolError (toString i)

theorem exists_toList_message (i : Int) (mark : Mark) (path : Path) :
    ∃ kind ∈ [" as u128", " as i128"], ∃ rest, (ReadError.content (.tooWide i) mark path).message.toList =
      path.heading.toList ++ ("invalid type: integer ".toList ++ ['\u0060'] ++
        ((toString i).toList ++ (['\u0060'] ++ (kind.toList ++ rest)))) := by
  have hself : ∀ s : String, toString s = s := fun _ => rfl
  have hopening : "invalid type: integer \u0060".toList = "invalid type: integer ".toList ++ ['\u0060'] :=
    Yaml.opening_append
  have hclosing : "\u0060 as ".toList = ['\u0060'] ++ " as ".toList := by decide
  have hkinds : " as u128".toList = " as ".toList ++ "u128".toList ∧
      " as i128".toList = " as ".toList ++ "i128".toList := by decide
  have hmessage : ∀ kind : String, (if i < 0 then "i128" else "u128") = kind →
      (ReadError.content (.tooWide i) mark path).message.toList =
        path.heading.toList ++ ("invalid type: integer ".toList ++ ['\u0060'] ++ ((toString i).toList ++
          (['\u0060'] ++ (" as ".toList ++ kind.toList ++
            (", expected any YAML value".toList ++ mark.suffix.toList))))) := by
    intro kind hkind
    unfold ReadError.message Yaml.Refusal.message
    dsimp only
    rw [hkind]
    simp only [hself, String.toList_append, hopening, hclosing, List.append_assoc]
  by_cases hi : i < 0
  · refine ⟨" as i128", by simp, ", expected any YAML value".toList ++ mark.suffix.toList, ?_⟩
    rw [hmessage "i128" (if_pos hi), hkinds.2]
  · refine ⟨" as u128", by simp, ", expected any YAML value".toList ++ mark.suffix.toList, ?_⟩
    rw [hmessage "u128" (if_neg hi), hkinds.1]

/-- The path and the digits are cut from the message, unless the path reads like the message itself. -/
theorem wideInteger?_message {i : Int} {mark : Mark} {path : Path}
    (hpath : ¬ opening <:+: path.heading.toList) :
    wideInteger? (ReadError.content (.tooWide i) mark path).message = some (wideError path i) := by
  obtain ⟨kind, hkind, rest, hmessage⟩ := exists_toList_message i mark path
  have hcut : Text.cut? opening
      (ReadError.content (.tooWide i) mark path).message.toList =
      some (path.heading.toList, (toString i).toList ++ (['\u0060'] ++ (kind.toList ++ rest))) := by
    rw [Yaml.opening_append] at hpath
    rw [hmessage, Yaml.opening_append]
    exact Text.cut?_append (by decide) hpath _
  have hdigits : Text.cut? ['\u0060'] ((toString i).toList ++ (['\u0060'] ++ (kind.toList ++ rest))) =
      some ((toString i).toList, kind.toList ++ rest) := by
    refine Text.cut?_append List.not_mem_nil (fun hinside => ?_) _
    exact Yaml.not_mem_toString_int (by decide) (by decide) i (hinside.subset (List.mem_singleton_self _))
  have hkinds : (" as u128".toList.isPrefixOf (kind.toList ++ rest) ||
      " as i128".toList.isPrefixOf (kind.toList ++ rest)) = true := by
    have hstart : kind.toList.isPrefixOf (kind.toList ++ rest) = true :=
      List.isPrefixOf_iff_prefix.2 (List.prefix_append _ _)
    rw [Bool.or_eq_true]
    fin_cases hkind
    · exact .inl hstart
    · exact .inr hstart
  unfold wideInteger?
  change (Text.cut? opening _ >>= _) = _
  rw [hcut, Option.bind_eq_bind, Option.bind_some]
  dsimp only
  rw [hdigits, Option.bind_eq_bind, Option.bind_some]
  dsimp only
  rw [hkinds, String.ofList_toList, wideError]
  split <;> rfl

theorem wideInteger?_eq_none {message : String} (h : ¬ opening <:+: message.toList) :
    wideInteger? message = none := by
  have hcut : Text.cut? opening message.toList = none := by
    refine Option.eq_none_iff_forall_ne_some.2 fun parts hparts => ?_
    exact h ⟨parts.1, parts.2, Text.append_of_cut? hparts⟩
  unfold wideInteger?
  change (Text.cut? opening _ >>= _) = _
  rw [hcut]
  rfl

/-! ## The answer -/

/-- How a text is answered that cannot be read, if it is not taken for an empty one, and no text of the
document that the message shows has in it the words that begin a message about an integer.  If an integer is to
blame, that is a scalar without quotes or under the tag of integers that writes an integer outside the range
of 64 binary digits, the answer is an error about the specification with the digits; and for every other
cause it is a syntax error, with the message and with the place counted from one. -/
theorem parse_of_unreadable {text : String} (hnonblank : isBlankText text.toList = false) {e : ReadError}
    (he : Yaml.read text.toList = .error e) (hshown : ∀ s ∈ e.shown, ¬ opening <:+: s.toList) :
    (∀ i mark path, e = .content (.tooWide i) mark path →
      parse text = .error (.invalid (wideError path i)) ∧ Yaml.isNarrow i = false ∧
      ∃ properties style written,
        (Yaml.Document.ofTokens (Yaml.tokenize text.toList)).Has (.scalar mark properties style written) ∧
        Yaml.intOfText? written.toList = some i ∧
        (style = .plain ∨ properties.tag.map Yaml.Tag.ofOctets = some .integer)) ∧
    ((∀ i mark path, e ≠ .content (.tooWide i) mark path) →
      parse text = .error (.malformed {
        message := e.message
        line := e.mark?.map (·.line + 1)
        column := e.mark?.map (·.column + 1) })) := by
  have hparse : parse text = .error (readingError e) := by
    rw [parse, hnonblank, if_neg Bool.false_ne_true, he]
  have hcause := Yaml.causedIn_of_read he
  refine ⟨?_, fun hother => ?_⟩
  · rintro i mark path rfl
    have hpath : ¬ opening <:+: path.heading.toList := by
      intro hpart
      obtain ⟨s, hs, hpart⟩ := Path.infix_heading hpart
      exact hshown s (List.mem_append_left _ hs) hpart
    cases hcause with
    | scalar hnode hrefused =>
      cases hrefused with
      | tooWide hint hnarrow hform =>
        refine ⟨?_, hnarrow, _, _, _, hnode, hint, hform⟩
        rw [hparse, readingError, wideInteger?_message hpath]
  · have hexpected : ∀ s expected mark path, e = .content (.notOfTag s expected) mark path →
        '\u0060' ∉ expected.toList := by
      rintro s expected mark path rfl
      cases hcause with
      | scalar hnode hrefused =>
        cases hrefused with
        | notOfTag hmem =>
          fin_cases hmem <;> exact Text.not_mem_toList (by decide)
    have hmessage : ¬ opening <:+: e.message.toList := by
      intro hpart
      obtain ⟨s, hs, hpart⟩ := ReadError.infix_message hother hexpected hpart
      exact hshown s hs hpart
    rw [hparse, readingError, wideInteger?_eq_none hmessage]
    rfl

/-- The key that comes twice in the outermost mapping, and where this starts. -/
def repeated? : ReadError → Option (String × Mark)
  | .content (.repeatedKey (.string s)) mark [] => some (s, mark)
  | _ => none

theorem eq_of_repeated? {e : ReadError} {s : String} {mark : Mark} (h : repeated? e = some (s, mark)) :
    e = .content (.repeatedKey (.string s)) mark [] := by
  unfold repeated? at h
  split at h
  · cases h
    rfl
  · cases h

theorem message_repeated (s : String) :
    (ReadError.content (.repeatedKey (.string s)) .origin []).message =
      "duplicate entry with key " ++ Text.quoted s := by
  have hdescribe : Path.describe [] = "." := by rw [Path.describe]
  have hheading : Path.heading [] = "" := by
    rw [Path.heading, hdescribe]
    rfl
  have hsuffix : Mark.origin.suffix = "" := rfl
  have hwords : "duplicate entry with key " = "duplicate entry " ++ "with key " := by decide
  unfold ReadError.message Yaml.Refusal.message Yaml.Refusal.describeKey
  dsimp only
  rw [hheading, hwords, hsuffix, String.empty_append, String.append_empty, String.append_assoc]

def repeatedText : String := "a: 0\na: 1\n"

theorem parse_of_unreadable_repeatedText : parse repeatedText = .error (.malformed {
    message := "duplicate entry with key \"a\""
    line := some 1
    column := some 1 }) := by
  have hread : ((Yaml.read repeatedText.toList).mapError repeated?).map (fun _ => ()) =
      .error (some ("a", .origin)) := by
    decide +kernel
  obtain ⟨e, he, hrepeated⟩ := exists_of_mapError hread
  rw [eq_of_repeated? hrepeated] at he
  have hshown : ∀ s ∈ (ReadError.content (.repeatedKey (.string "a")) .origin []).shown,
      ¬ opening <:+: s.toList := by
    intro s hs hpart
    rw [List.mem_singleton.1 hs] at hpart
    exact absurd hpart.length_le (by decide)
  have hquoted : "duplicate entry with key " ++ Text.quoted "a" = "duplicate entry with key \"a\"" := by decide
  have hanswer := (parse_of_unreadable (by decide) he hshown).2 (fun _ _ _ h => by cases h)
  rw [message_repeated, hquoted] at hanswer
  exact hanswer

/-- A mapping with a key that comes twice and reads like the message about an integer. -/
def forgedText : String :=
  "\"invalid type: integer \u00605\u0060 as u128\": 0\n\"invalid type: integer \u00605\u0060 as u128\": 1\n"

/-- The key is taken for an integer that is too wide. -/
theorem not_answered_by_cause : ¬ ∀ text e, isBlankText text.toList = false →
    Yaml.read text.toList = .error e →
    ((∃ x, parse text = .error (.invalid x)) ↔ ∃ i mark path, e = .content (.tooWide i) mark path) := by
  have hread : ((Yaml.read forgedText.toList).mapError repeated?).map (fun _ => ()) =
      .error (some ("invalid type: integer \u00605\u0060 as u128", .origin)) := by
    decide +kernel
  have hfound : ((wideInteger? ("duplicate entry with key " ++
      Text.quoted "invalid type: integer \u00605\u0060 as u128")).map (·.problem)) = some (some "5") := by
    decide +kernel
  obtain ⟨e, he, hrepeated⟩ := exists_of_mapError hread
  rw [eq_of_repeated? hrepeated] at he
  obtain ⟨x, hx, -⟩ := Option.map_eq_some_iff.1 hfound
  have hnonblank : isBlankText forgedText.toList = false := by decide
  have hparse : parse forgedText = .error (.invalid x) := by
    rw [parse, hnonblank, if_neg Bool.false_ne_true, he]
    dsimp only
    rw [readingError, message_repeated, hx]
  intro hall
  obtain ⟨i, mark, path, heq⟩ := (hall forgedText _ hnonblank he).1 ⟨x, hparse⟩
  cases heq

end Spec

end TapeMachine
