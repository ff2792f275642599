import TapeMachine.Proofs.Document.Errors
import TapeMachine.Proofs.Document.Names
import TapeMachine.Proofs.Yaml.Void

/-!
# Empty documents

A document is answered as empty for one of two reasons: a first look at its lines finds nothing but white space and
comments, or it reads as null.  The first look has its own idea of lines and white space, so that it can take a text
for empty that is not.  Whatever the reader of a mapping finds wrong is another error than this one.
-/

namespace TapeMachine

open Yaml (Value)

/-- The error is about something that the document says. -/
def SpecError.AboutContent (e : SpecError) : Prop := e.reason ≠ .emptyDocument

open SpecError (AboutContent)

/-! ## Documents -/

namespace Spec

theorem failsWith_ofMapping (m : Mapping) : FailsWith AboutContent (ofMapping m) :=
  failsWith_iff.2 fun e h => by
    rcases plain_or_tableOf h with he | ⟨wild, type, entries, -, h⟩
    · exact he.content
    · exact (failsWith_iff.1 (failsWith_tableOf type wild _ entries) e h).content

theorem ofValue_empty_iff {v : Value} :
    (∃ e, ofValue v = .error e ∧ e.reason = .emptyDocument) ↔ v.IsNull := by
  unfold ofValue Value.IsNull
  cases v.untagged with
  | null => simp [emptyDocument]
  | mapping m =>
    simp only [reduceCtorEq, iff_false, not_exists, not_and]
    exact failsWith_iff.1 (failsWith_ofMapping m)
  | _ => simp

/-! ## Texts -/

/-- The text is answered with the error that it is empty. -/
def AnsweredEmpty (text : String) : Prop := ∃ e, parse text = .error e ∧ e.reason? = some .emptyDocument

/-- The text holds no document, or one that is null. -/
def HoldsNothing (text : List Char) : Prop :=
  (Yaml.Document.ofTokens (Yaml.tokenize text)).root = none ∨ ∃ v, Yaml.read text = .ok v ∧ v.IsNull

theorem holdsNothing_iff {text : List Char} : HoldsNothing text ↔ ∃ v, Yaml.read text = .ok v ∧ v.IsNull := by
  refine or_iff_right_of_imp fun hroot => ?_
  exact ⟨.null, Yaml.value_of_root_eq_none hroot, rfl⟩

theorem aboutContent_of_wideInteger? {message : String} {e : SpecError} (h : wideInteger? message = some e) :
    e.AboutContent := by
  obtain ⟨⟨before, after⟩, -, h⟩ := Option.bind_eq_some_iff.1 h
  obtain ⟨⟨digits, rest⟩, -, h⟩ := Option.bind_eq_some_iff.1 h
  obtain ⟨_, -, h⟩ := Option.bind_eq_some_iff.1 h
  by_cases hinput : Text.trimEndMarks ": ".toList before = "input".toList
  · cases (if_pos hinput).symm.trans h
    exact nofun
  · cases (if_neg hinput).symm.trans h
    exact nofun

theorem reason?_readingError (e : Yaml.ReadError) : (readingError e).reason? ≠ some .emptyDocument := by
  unfold readingError
  cases hwide : wideInteger? e.message with
  | none => exact nofun
  | some e' => exact fun h => aboutContent_of_wideInteger? hwide (Option.some.inj h)

/-- A text is answered as empty if the first look takes it for empty, or if it holds nothing. -/
theorem answeredEmpty_iff {text : String} :
    AnsweredEmpty text ↔ isBlankText text.toList = true ∨ HoldsNothing text.toList := by
  unfold AnsweredEmpty parse
  rw [holdsNothing_iff]
  cases hblank : isBlankText text.toList with
  | true => exact iff_of_true ⟨_, rfl, rfl⟩ (.inl rfl)
  | false =>
    rw [if_neg Bool.false_ne_true, or_iff_right Bool.false_ne_true]
    cases hread : Yaml.read text.toList with
    | error e => simp [reason?_readingError]
    | ok v =>
      simp only [Except.ok.injEq, exists_eq_left', ← ofValue_empty_iff]
      cases ofValue v with
      | ok s => simp [Except.mapError]
      | error e => simp [Except.mapError, ParseError.reason?]

/-- A text is answered as empty if and only if it holds no document or one that is null, provided that, where the
first look takes it for empty, its lines are blank or comments for the scanner too. -/
theorem answeredEmpty_iff_holdsNothing {text : String}
    (h : isBlankText text.toList = true → Yaml.isVoidText text.toList = true) :
    AnsweredEmpty text ↔ HoldsNothing text.toList := by
  rw [answeredEmpty_iff]
  exact or_iff_right_of_imp fun hblank => .inl (Yaml.root_tokenize_eq_none_iff.2 (h hblank))

theorem holdsNothing_of_reading {text : String}
    (h : (Yaml.read text.toList).toOption.map (·.present?.isNone) = some true) : HoldsNothing text.toList := by
  obtain ⟨v, hread, hnull⟩ := exists_of_toOption_map h
  exact .inr ⟨v, hread, Value.isNull_iff.2 (Option.isNone_iff_eq_none.1 hnull)⟩

theorem answeredEmpty_comments_null :
    (isBlankText "# a\r\n  # b\n".toList = true ∧ AnsweredEmpty "# a\r\n  # b\n") ∧
      isBlankText "--- !a ~\n".toList = false ∧ AnsweredEmpty "--- !a ~\n" := by
  refine ⟨⟨by decide, ?_⟩, by decide, ?_⟩
  · refine (answeredEmpty_iff_holdsNothing fun _ => by decide).2 (.inl ?_)
    exact Yaml.root_tokenize_eq_none_iff.2 (by decide)
  · refine (answeredEmpty_iff_holdsNothing fun hblank => ?_).2 (holdsNothing_of_reading (by decide +kernel))
    exact absurd hblank (by decide)

/-- A machine whose lines end in carriage returns, below a comment. -/
def carriageText : String := "#\rblank: 0\rstart state: a\rtable:\r  a:\r"

/-- The first look takes for a single comment what the scanner reads as a comment and a machine. -/
theorem answeredEmpty_carriageText :
    AnsweredEmpty carriageText ∧ ¬ HoldsNothing carriageText.toList ∧
      ∃ v s, Yaml.read carriageText.toList = .ok v ∧ ofValue v = .ok s ∧ s.start = "a" := by
  have hreading : ((Yaml.read carriageText.toList).toOption.map fun v =>
      (ofValue v).toOption.map (·.start)) = some (some "a") := by
    decide +kernel
  obtain ⟨v, hread, hstart⟩ := exists_of_toOption_map hreading
  obtain ⟨s, hs, hstart⟩ := exists_of_toOption_map hstart
  refine ⟨answeredEmpty_iff.2 (.inl (by decide)), fun hnothing => ?_, v, s, hread, hs, hstart⟩
  obtain ⟨v', hv', hnull⟩ := holdsNothing_iff.1 hnothing
  obtain ⟨e, he, -⟩ := ofValue_empty_iff.2 hnull
  rw [← Except.ok.inj (hread.symm.trans hv'), hs] at he
  cases he

end Spec

end TapeMachine
