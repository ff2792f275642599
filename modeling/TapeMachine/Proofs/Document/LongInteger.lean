import TapeMachine.Proofs.Document.Classification
import TapeMachine.Proofs.Document.Scalar
import TapeMachine.Proofs.Number.Binary64

/-!
# Integers that are too long

An integer of 64 binary digits or less is a value, and an integer that is longer should be quoted.  How a
document with such an integer is answered depends on its length: up to 128 digits the document cannot be
read, and the error is taken from the message about that; beyond, the integer is a floating-point number, and
still longer it is a text.
-/

namespace TapeMachine

open Yaml (Value ReadError Path Mark Template Document tokenize)

namespace Spec

/-! ## Where the integer stands -/

theorem readingError_of_field {t : Template} (hplace : t.place.IsField "input") (n : Nat) :
    readingError (.content (.tooWide n) t.mark t.place.path) = .invalid (inputError (toString n)) := by
  obtain ⟨f, mark, properties, style, hf, hslot⟩ := hplace
  have hpath : t.place.path = [.key "input"] := by
    simp [hf, Yaml.Place.path, Yaml.Frame.steps, hslot, Yaml.Interpreter.stepOf]
  have hdescribe : Path.describe [.key "input"] = "input" := by
    rw [Path.describe, Path.describe.inside]
    decide
  have hheading : Path.heading [.key "input"] = "input: " := by
    rw [Path.heading, hdescribe]
    decide
  have hinside : ¬ "invalid type: integer \u0060".toList <:+: (Path.heading [.key "input"]).toList := by
    intro hinside
    have hlength := hinside.length_le
    rw [hheading] at hlength
    exact absurd hlength (by decide)
  have htrim : Text.trimEndMarks ": ".toList (Path.heading [.key "input"]).toList = "input".toList := by
    rw [hheading]
    decide
  rw [hpath, readingError, wideInteger?_message hinside, wideError, if_pos htrim]
  rfl

theorem exists_heading_rowKey {place : Yaml.Place} (hplace : place.IsRowKey) :
    ∃ cs, place.path.heading.toList = 't' :: cs := by
  obtain ⟨table, row, key, mark, properties, style, state, next, rfl, htable, hrow, hkey⟩ := hplace
  have hpath : Yaml.Place.path [table, row, key] = [Yaml.Interpreter.stepOf state, .key "table"] := by
    simp [Yaml.Place.path, Yaml.Frame.steps, htable, hrow, hkey, Yaml.Interpreter.stepOf]
  have htable : Path.describe.inside [.key "table"] = "table." := by
    rw [Path.describe.inside, Path.describe, Path.describe.inside]
    decide
  have hdescribe : ∃ name,
      Path.describe [Yaml.Interpreter.stepOf state, .key "table"] = "table." ++ name := by
    unfold Yaml.Interpreter.stepOf
    split
    · rename_i text
      exact ⟨text, by rw [Path.describe, htable]⟩
    · exact ⟨"?", by rw [Path.describe, htable]⟩
  obtain ⟨name, hname⟩ := hdescribe
  have hlist : ("table." ++ name).toList = 't' :: ("able.".toList ++ name.toList) := by
    rw [String.toList_append]
    rfl
  have hne : ("table." ++ name == ".") = false := by
    rw [beq_eq_false_iff_ne, ne_eq, ← String.toList_inj, hlist]
    exact fun h => absurd (List.cons.inj h).1 (by decide)
  refine ⟨"able.".toList ++ name.toList ++ ": ".toList, ?_⟩
  rw [hpath, Path.heading, hname, hne, if_neg Bool.false_ne_true, String.toList_append, hlist,
    List.cons_append]

theorem readingError_of_rowKey {t : Template} (hplace : t.place.IsRowKey) {n : Nat}
    (hinside : ¬ "invalid type: integer \u0060".toList <:+: t.place.path.heading.toList) :
    readingError (.content (.tooWide n) t.mark t.place.path) = .invalid (symbolError (toString n)) := by
  have htrim : Text.trimEndMarks ": ".toList t.place.path.heading.toList ≠ "input".toList := by
    obtain ⟨cs, hcs⟩ := exists_heading_rowKey hplace
    intro htrim
    have hprefix := Text.trimEndMarks_prefix ": ".toList t.place.path.heading.toList
    rw [htrim, hcs] at hprefix
    have hfirst : 'i' = 't' := (List.cons_prefix_cons.1 hprefix).1
    exact absurd hfirst (by decide)
  rw [readingError, wideInteger?_message hinside, wideError, if_neg htrim]
  rfl

/-! ## Documents with a long integer -/

/-- The text is refused for the given reason and problem, with a hint how to mend it. -/
def Refuses (text : String) (reason : Reason) (problem : String) : Prop :=
  ∃ e : SpecError, parse text = .error (.invalid e) ∧ e.reason = reason ∧ e.problem = some problem ∧
    e.suggestion.isSome = true

/-- The text has the digits of an integer as a scalar without quotes, and would be a document with some
quoted text in their place. -/
structure HasInteger (text : String) (t : Template) (n : Nat) (m : Mapping) (s : Spec) : Prop where
  nonblank : isBlankText text.toList = false
  typed : Document.ofTokens (tokenize text.toList) = t.fill .plain (toString n)
  unnumbered : t.Unnumbered
  otherwise : ∃ x v, (t.fill .quoted x).value = .ok v ∧ v.untagged = .mapping m
  accepted : ofMapping m = .ok s

variable {text : String} {t : Template} {n : Nat} {m : Mapping} {s : Spec}

theorem parse_of_error (h : HasInteger text t n m s) {e : ReadError}
    (he : (t.fill .plain (toString n)).value = .error e) : parse text = .error (readingError e) := by
  rw [parse, h.nonblank, if_neg Bool.false_ne_true, Yaml.read, h.typed, he]

theorem parse_of_value (h : HasInteger text t n m s) {v : Value}
    (hv : (t.fill .plain (toString n)).value = .ok v) : parse text = (ofValue v).mapError .invalid := by
  rw [parse, h.nonblank, if_neg Bool.false_ne_true, Yaml.read, h.typed, hv]

theorem HasInteger.exists_holes (h : HasInteger text t n m s) : ∃ refs holes x,
    List.Forall₂ (Yaml.Interpreter.Corresponds refs) t.place holes ∧
    (Yaml.fillAll holes (.string x)).untagged = .mapping m ∧
    (∀ refusal, Yaml.readUntagged .plain (toString n) = .error refusal →
      parse text = .error (readingError (.content refusal t.mark t.place.path))) ∧
    ∀ u, Yaml.readUntagged .plain (toString n) = .ok u → Yaml.FitsAll holes u →
      parse text = (ofValue (Yaml.fillAll holes u)).mapError .invalid := by
  obtain ⟨x, v, hv, hm⟩ := h.otherwise
  obtain ⟨holes, u, hholes, hu, rfl, hother⟩ := Template.exists_holes hv
  cases hu
  obtain ⟨hrefused, hread⟩ := hother h.unnumbered .plain (toString n)
  refine ⟨_, holes, x, hholes, hm, fun refusal hrefusal => ?_, fun u hu hfits => ?_⟩
  · exact parse_of_error h (hrefused refusal hrefusal)
  · exact parse_of_value h (hread u hu hfits)

/-! ## The answers -/

theorem refuses_of_mapError {v : Value} {e : SpecError} (hv : ofValue v = .error e)
    (hparse : parse text = (ofValue v).mapError .invalid) (hhint : e.suggestion.isSome = true)
    {problem : String} (hproblem : e.problem = some problem) : Refuses text e.reason problem := by
  refine ⟨e, ?_, rfl, hproblem, hhint⟩
  rw [hparse, hv]
  rfl

/-- The text of the float that a long integer is taken for. -/
def floatText (n : Nat) : String := (Number.Binary64.ofDecimal false n 0).text

theorem readUntagged_toString (hn : 2 ^ 64 ≤ n) :
    (n < 2 ^ 128 → Yaml.readUntagged .plain (toString n) = .error (.tooWide n)) ∧
    (2 ^ 128 ≤ n → n < Number.overflow → Yaml.readUntagged .plain (toString n) =
      .ok (.number (.float (Number.Binary64.ofDecimal false n 0)))) ∧
    (Number.overflow ≤ n → Yaml.readUntagged .plain (toString n) = .ok (.string (toString n))) := by
  have hread : Yaml.readUntagged .plain (toString n) = (Yaml.resolvePlain (toString n)).toValue := rfl
  have hfinite := Number.isFinite_ofDecimal_iff (show 2 ^ 53 ≤ n by omega)
  rw [hread, Yaml.resolvePlain_toString hn]
  refine ⟨fun hshort => ?_, fun hlong hfloat => ?_, fun htext => ?_⟩
  · rw [if_pos hshort]
    rfl
  · rw [if_neg (Nat.not_lt.2 hlong), if_pos (hfinite.2 hfloat)]
    rfl
  · have hlong : ¬ n < 2 ^ 128 := by
      have hbound : 2 ^ 128 ≤ Number.overflow := by decide +kernel
      omega
    rw [if_neg hlong, if_neg fun h => Nat.not_lt.2 htext (hfinite.1 h)]
    rfl

/-- A long integer as the input is refused, but with its own digits only up to 128 binary digits; one that
is too large for a float is accepted. -/
theorem parse_integer_field (h : HasInteger text t n m s) (hn : 2 ^ 64 ≤ n)
    (hplace : t.place.IsField "input") :
    (n < 2 ^ 128 → Refuses text .invalidInputType (toString n)) ∧
    (Once m "input" → 2 ^ 128 ≤ n → n < Number.overflow →
      Refuses text .invalidInputType (floatText n)) ∧
    (Once m "input" → Number.overflow ≤ n → parse text = .ok { s with input := some (toString n) }) := by
  obtain ⟨hwide, hfloat, htext⟩ := readUntagged_toString hn
  obtain ⟨refs, holes, x, hholes, hm, hrefused, hread⟩ := h.exists_holes
  have hfield := readingError_of_field hplace n
  obtain ⟨hole, key, rfl, hkeySlot, hkey⟩ := hplace.exists_hole (by decide) hholes
  have hfits : ∀ u, Yaml.FitsAll [hole] u := fun u => ⟨Yaml.Hole.fits_of_value hkeySlot u, trivial⟩
  refine ⟨fun hshort => ?_, fun honce hlong hfinite => ?_, fun honce hlong => ?_⟩
  · rw [Refuses, hrefused _ (hwide hshort), hfield]
    exact ⟨_, rfl, rfl, rfl, rfl⟩
  · have hanswer := ofValue_of_input hkeySlot hkey hm honce h.accepted
    exact refuses_of_mapError (hanswer _) (hread _ (hfloat hlong hfinite) (hfits _)) rfl rfl
  · have hanswer := ofValue_of_input hkeySlot hkey hm honce h.accepted
    rw [hread _ (htext hlong) (hfits _), hanswer]
    rfl

theorem soleChar?_toString (hn : 10 ≤ n) : soleChar? (toString n) = none := by
  refine Option.eq_none_iff_forall_ne_some.2 fun c hc => ?_
  rw [soleChar?_eq_some_iff, Yaml.toList_toString, Nat.toDigits_of_base_le (by decide) hn] at hc
  have hlength := congrArg List.length hc
  have hpos := List.length_pos_iff.2 (Nat.toDigits_ne_nil (n := n / 10) (b := 10))
  simp only [List.length_append, List.length_singleton] at hlength
  omega

theorem parse_integer_rowKey (h : HasInteger text t n m s) (hn : 2 ^ 64 ≤ n) (hplace : t.place.IsRowKey) :
    (¬ "invalid type: integer \u0060".toList <:+: t.place.path.heading.toList → n < 2 ^ 128 →
      Refuses text .invalidSymbol (toString n)) ∧
    (s.machineType = .oneTape → Once m "table" → 2 ^ 128 ≤ n → n < Number.overflow →
      Refuses text .invalidSymbol (floatText n)) ∧
    (s.machineType = .oneTape → Once m "table" → Number.overflow ≤ n →
      Refuses text .invalidSymbol (toString n)) := by
  obtain ⟨hwide, hfloat, htext⟩ := readUntagged_toString hn
  obtain ⟨refs, holes, x, hholes, hm, hrefused, hread⟩ := h.exists_holes
  refine ⟨fun hinside hshort => ?_, ?_⟩
  · rw [Refuses, hrefused _ (hwide hshort), readingError_of_rowKey hplace hinside]
    exact ⟨_, rfl, rfl, rfl, rfl⟩
  obtain ⟨table, row, key, k, q, w, rfl, htable, hk, hrow, hkey⟩ := hplace.exists_holes hholes
  have hanswer : s.machineType = .oneTape → Once m "table" → ∀ u,
      Yaml.readUntagged .plain (toString n) = .ok u → SingleTable.keySymbols? u = none →
      ((∃ y, u = .number (.float y)) ∨ ∃ r, u = .string r) → Refuses text .invalidSymbol u.describe := by
    intro htype honce u hu hsymbols hscalar
    obtain ⟨hfits, state, -, herror⟩ := ofValue_of_rowKey htable hk hrow hkey hm honce h.accepted htype
      hsymbols hscalar
    exact refuses_of_mapError herror (hread u hu hfits) rfl rfl
  have hsymbols : SingleTable.keySymbols? (.string (toString n)) = none := by
    change (soleChar? (toString n)).map ([·]) = none
    rw [soleChar?_toString (by omega)]
    rfl
  refine ⟨fun htype honce hlong hfinite => ?_, fun htype honce hlong => ?_⟩
  · exact hanswer htype honce _ (hfloat hlong hfinite) rfl (.inl ⟨_, rfl⟩)
  · exact hanswer htype honce _ (htext hlong) hsymbols (.inr ⟨_, rfl⟩)

theorem Refuses.problem_unique {reason : Reason} {problem problem' : String} (h : Refuses text reason problem)
    (h' : Refuses text reason problem') : problem = problem' := by
  obtain ⟨e, he, -, hproblem, -⟩ := h
  obtain ⟨e', he', -, hproblem', -⟩ := h'
  rw [he, Except.error.injEq, ParseError.invalid.injEq] at he'
  rw [he', hproblem', Option.some.injEq] at hproblem
  exact hproblem.symm

/-- How a document is answered that has an unquoted integer of more than 64 binary digits as its input or as
a key.  It is refused with the digits and a hint to quote them if it has at most 128 binary digits, and its
path does not look like the message about it.  A longer one is refused with the text of the float it is taken
for, which has other digits; one that is too long for a float is refused as a key, and accepted as the
input. -/
theorem parse_long_integer (h : HasInteger text t n m s) (hn : 2 ^ 64 ≤ n) :
    (t.place.IsField "input" →
      (n < 2 ^ 128 → Refuses text .invalidInputType (toString n)) ∧
      (Once m "input" → 2 ^ 128 ≤ n → n < Number.overflow →
        Refuses text .invalidInputType (floatText n) ∧
        ¬ Refuses text .invalidInputType (toString n)) ∧
      (Once m "input" → Number.overflow ≤ n → parse text = .ok { s with input := some (toString n) })) ∧
    (t.place.IsRowKey →
      (¬ "invalid type: integer \u0060".toList <:+: t.place.path.heading.toList → n < 2 ^ 128 →
        Refuses text .invalidSymbol (toString n)) ∧
      (s.machineType = .oneTape → Once m "table" → 2 ^ 128 ≤ n → n < Number.overflow →
        Refuses text .invalidSymbol (floatText n) ∧
        ¬ Refuses text .invalidSymbol (toString n)) ∧
      (s.machineType = .oneTape → Once m "table" → Number.overflow ≤ n →
        Refuses text .invalidSymbol (toString n))) := by
  have hother : ∀ reason, n < Number.overflow →
      Refuses text reason (floatText n) →
      Refuses text reason (floatText n) ∧ ¬ Refuses text reason (toString n) := by
    intro reason hfinite hrefuses
    refine ⟨hrefuses, fun hdigits => ?_⟩
    have hfloat := (Number.isFinite_ofDecimal_iff (show 2 ^ 53 ≤ n by omega)).2 hfinite
    exact Number.text_ne_toString hfloat n (hrefuses.problem_unique hdigits)
  refine ⟨fun hplace => ?_, fun hplace => ?_⟩
  · obtain ⟨hwide, hfloat, htext⟩ := parse_integer_field h hn hplace
    exact ⟨hwide, fun honce hlong hfinite => hother _ hfinite (hfloat honce hlong hfinite), htext⟩
  · obtain ⟨hwide, hfloat, htext⟩ := parse_integer_rowKey h hn hplace
    exact ⟨hwide, fun htype honce hlong hfinite => hother _ hfinite (hfloat htype honce hlong hfinite), htext⟩

theorem exists_hasInteger (hblank : isBlankText text.toList = false)
    (htyped : Document.ofTokens (tokenize text.toList) = t.fill .plain (toString n))
    (hunnumbered : t.Unnumbered) {x : String}
    (hquoted : ((t.fill .quoted x).value.toOption.bind (ofValue · |>.toOption)).isSome = true) :
    ∃ m s, HasInteger text t n m s := by
  cases hv : (t.fill .quoted x).value with
  | error e =>
    rw [hv] at hquoted
    cases hquoted
  | ok v =>
    rw [hv] at hquoted
    cases hs : ofValue v with
    | error e =>
      change (ofValue v).toOption.isSome = true at hquoted
      rw [hs] at hquoted
      cases hquoted
    | ok s =>
      obtain ⟨m, hm, hs⟩ := ofValue_eq_ok_iff.1 hs
      exact ⟨m, s, hblank, htyped, hunnumbered, ⟨x, v, hv, hm⟩, hs⟩

def rowKeyText : String := "table:\n  a:\n    18446744073709551616: R\nblank: 0\nstart state: a\n"

def rowKeyTemplate : Template where
  place := [{
      mark := ⟨0, 0, 0⟩
      properties := .empty
      before := []
      slot := .value (wordAt 0 0 0 "table")
      after := [wordAt 3 0 40 "blank", wordAt 3 7 47 "0", wordAt 4 0 49 "start state", wordAt 4 13 62 "a"] },
    { mark := ⟨1, 2, 9⟩
      properties := .empty
      before := []
      slot := .value (wordAt 1 2 9 "a")
      after := [] },
    { mark := ⟨2, 4, 16⟩
      properties := .empty
      before := []
      slot := .key (wordAt 2 26 38 "R")
      after := [] }]
  mark := ⟨2, 4, 16⟩
  number := none
  size := 14
  fault := none
  continued := false

theorem heading_rowKeyTemplate : rowKeyTemplate.place.path.heading = "table.a: " := by
  have hpath : rowKeyTemplate.place.path = [.key "a", .key "table"] := rfl
  have hdescribe : Path.describe [.key "a", .key "table"] = "table.a" := by
    rw [Path.describe, Path.describe.inside, Path.describe, Path.describe.inside]
    decide
  rw [hpath, Path.heading, hdescribe]
  decide

theorem parse_long_integer_inputText :
    Refuses (inputText "18446744073709551616") .invalidInputType "18446744073709551616" ∧
    Refuses rowKeyText .invalidSymbol "18446744073709551616" := by
  have hinput : Document.ofTokens (tokenize (inputText "18446744073709551616").toList) =
      inputTemplate.fill .plain (toString 18446744073709551616) := by rfl
  have hrowKey : Document.ofTokens (tokenize rowKeyText.toList) =
      rowKeyTemplate.fill .plain (toString 18446744073709551616) := by rfl
  obtain ⟨m, s, h⟩ := exists_hasInteger (by decide) hinput
    ⟨rfl, by simp [inputTemplate, Yaml.Properties.empty]⟩ (x := "0") (by decide +kernel)
  obtain ⟨m', s', h'⟩ := exists_hasInteger (by decide) hrowKey
    ⟨rfl, by simp [rowKeyTemplate, Yaml.Properties.empty]⟩ (x := "0") (by decide +kernel)
  have hkey : rowKeyTemplate.place.IsRowKey := ⟨_, _, _, _, _, _, _, _, rfl, rfl, rfl, rfl⟩
  have hpath : ¬ "invalid type: integer \u0060".toList <:+: rowKeyTemplate.place.path.heading.toList := by
    rw [heading_rowKeyTemplate]
    exact fun hinside => absurd hinside.length_le (by decide)
  exact ⟨((parse_long_integer h (by decide)).1 isField_inputTemplate).1 (by decide),
    ((parse_long_integer h' (by decide)).2 hkey).1 hpath (by decide)⟩

/-- With one integer more the text of a float is reported in place of the digits. -/
theorem not_refuses_two_pow_128 :
    ¬ Refuses (inputText "340282366920938463463374607431768211456") .invalidInputType
      "340282366920938463463374607431768211456" := by
  have hproblem : (match parse (inputText "340282366920938463463374607431768211456") with
      | .error (.invalid e) => e.problem
      | _ => none) = some "3.402823669209385e38" := by
    decide +kernel
  rintro ⟨e, he, -, hdigits, -⟩
  rw [he] at hproblem
  exact absurd (hdigits.symm.trans hproblem) (by decide)

end Spec

end TapeMachine
