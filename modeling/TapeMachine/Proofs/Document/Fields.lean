import TapeMachine.Document.Parse
import TapeMachine.Proofs.Document.Rows

/-!
# Which documents are read

The parts of a document put together: `Spec.ofMapping` succeeds if each field does, and the specification
it gives consists of what the fields say.
-/

namespace TapeMachine.Spec

open TapeMachine.Yaml (Value)

variable {v? : Option Value}

theorem blankOf_eq_ok_iff {c : Symbol} :
    blankOf v? = .ok c ↔ ∃ v, v? = some v ∧ v.symbol? = some c := by
  unfold blankOf
  match v? with
  | none => simp
  | some v => cases hv : v.symbol? <;> simp [hv]

theorem wildOf_eq_ok_iff {w : Option Symbol} :
    wildOf v? = .ok w ↔ v?.map Value.symbol? = w.map some := by
  unfold wildOf
  match v? with
  | none => cases w <;> simp
  | some v => cases hv : v.symbol? <;> cases w <;> simp [hv]

theorem startOf_eq_ok_iff {s : State} :
    startOf v? = .ok s ↔ ∃ v, v? = some v ∧ v.text? = some s ∧ s ≠ "" := by
  have h : (v?.bind Value.text?).filter (· ≠ "") = some s ↔
      ∃ v, v? = some v ∧ v.text? = some s ∧ s ≠ "" := by
    simp only [Option.filter_eq_some_iff, Option.bind_eq_some_iff, decide_eq_true_eq]
    exact ⟨fun ⟨⟨v, hv, ht⟩, hs⟩ => ⟨v, hv, ht, hs⟩, fun ⟨v, hv, ht, hs⟩ => ⟨⟨v, hv, ht⟩, hs⟩⟩
  rw [← h]
  unfold startOf
  cases (v?.bind Value.text?).filter (· ≠ "") <;> simp

theorem machineTypeOf_eq_ok_iff {t : MachineType} :
    machineTypeOf v? = .ok t ↔
      v? = none ∧ t = .default ∨ ∃ v, v? = some v ∧ v.text? = some t.name := by
  unfold machineTypeOf
  match v? with
  | none => simp [eq_comm (a := t)]
  | some v =>
    have h : v.text?.bind MachineType.ofName? = some t ↔ v.text? = some t.name := by
      simp [Option.bind_eq_some_iff, MachineType.ofName?_eq_some_iff]
    simp only [reduceCtorEq, false_and, false_or, Option.some.injEq, exists_eq_left', ← h]
    cases v.text?.bind MachineType.ofName? <;> simp

theorem inputOf_eq_ok_iff {i : Option String} :
    inputOf v? = .ok i ↔ v?.map Value.text? = i.map some := by
  unfold inputOf
  match v? with
  | none => cases i <;> simp
  | some v => cases hv : v.text? <;> cases i <;> simp [hv]

theorem tableOf_eq_ok_iff {type : MachineType} {wild : Option Symbol} {entries : Dict State Value}
    {t : Table} :
    tableOf type wild v? entries = .ok t ↔
      match type with
      | .oneTape => ∃ syn s, Grammar.single.synonyms entries.keys v? = .ok syn ∧
          SingleTable.ofEntries syn entries = .ok s ∧ t = .single s
      | .threeTape => ∃ syn s, (Grammar.multi 3 wild).synonyms entries.keys v? = .ok syn ∧
          MultiTable.ofEntries 3 wild syn entries = .ok s ∧ t = .multi s := by
  cases type with
  | oneTape => simp [tableOf, bind_eq_ok_iff, map_eq_ok_iff]
  | threeTape => simp [tableOf, bind_eq_ok_iff, map_eq_ok_iff, MachineType.tapes]

theorem ofMapping_eq_ok_iff {m : Mapping} {s : Spec} :
    ofMapping m = .ok s ↔
      blankOf (field? m "blank") = .ok s.blank ∧
      wildOf (field? m "wild") = .ok s.wild ∧
      startOf (field? m "start state") = .ok s.start ∧
      machineTypeOf (field? m "type") = .ok s.machineType ∧
      (∃ entries, stateEntries (field? m "table") = .ok entries ∧
        tableOf s.machineType s.wild (field? m "synonyms") entries = .ok s.table ∧
        s.start ∈ entries.keys) ∧
      inputOf (field? m "input") = .ok s.input ∧
      s.name = (field? m "name").bind Value.text? := by
  have hstart : ∀ (start : State) (entries : Dict State Value),
      declaredStart start entries = .ok () ↔ start ∈ entries.keys := by
    intro start entries
    unfold declaredStart
    by_cases h : start ∈ entries.keys <;> simp [h]
  simp only [ofMapping, bind_eq_ok_iff, pure_eq_ok_iff]
  constructor
  · rintro ⟨b, hb, w, hw, q, hq, k, hk, entries, he, t, ht, _, hd, i, hi, rfl⟩
    exact ⟨hb, hw, hq, hk, ⟨entries, he, ht, (hstart _ _).1 hd⟩, hi, rfl⟩
  · rintro ⟨hb, hw, hq, hk, ⟨entries, he, ht, hd⟩, hi, hn⟩
    exact ⟨_, hb, _, hw, _, hq, _, hk, entries, he, _, ht, (), (hstart _ _).2 hd, _, hi,
      by rw [← hn]⟩

theorem ofValue_eq_ok_iff {v : Value} {s : Spec} :
    ofValue v = .ok s ↔ ∃ m, v.untagged = .mapping m ∧ ofMapping m = .ok s := by
  unfold ofValue
  cases v.untagged <;> simp

theorem parse_eq_ok_iff {text : String} {s : Spec} :
    parse text = .ok s ↔
      isBlankText text.toList = false ∧ ∃ v, Yaml.read text.toList = .ok v ∧ ofValue v = .ok s := by
  unfold parse
  cases isBlankText text.toList with
  | true => simp
  | false =>
    cases Yaml.read text.toList with
    | error e => simp
    | ok v => simp [mapError_eq_ok_iff]

end TapeMachine.Spec
