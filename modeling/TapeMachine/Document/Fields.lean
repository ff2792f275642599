import TapeMachine.Document.Rows
import TapeMachine.Spec

/-!
# The fields of a document

A document is a mapping with up to eight fields; other entries are passed over, and a field that is null
counts as absent.  The fields are checked in a fixed order, and the first defect is the one reported.
-/

namespace TapeMachine

open Yaml (Value)

namespace Spec

/-- What a mapping says under a name; the last entry counts. -/
def field? (m : Mapping) (name : String) : Option Value :=
  (m.filter (·.1.text? == some name)).getLast?.bind (·.2.present?)

def emptyDocument : SpecError where
  reason := .emptyDocument
  info := some "Every Turing machine requires a \u0060blank\u0060 tape symbol, a \u0060start state\u0060, and a transition \u0060table\u0060"

def blankSuggestion : String := "Examples: \u0060blank: ' '\u0060, \u0060blank: '0'\u0060"

def blankOf : Option Value → Except SpecError Symbol
  | none => .error { reason := .missingBlank, suggestion := some blankSuggestion }
  | some v =>
    match v.symbol? with
    | some c => .ok c
    | none => .error {
        reason := .invalidBlankLength
        problem := some v.describe
        suggestion := some blankSuggestion }

def wildOf : Option Value → Except SpecError (Option Symbol)
  | none => .ok none
  | some v =>
    match v.symbol? with
    | some c => .ok (some c)
    | none => .error {
        reason := .invalidWildLength
        problem := some v.describe
        suggestion := some "Example: \u0060wild: '*'\u0060" }

def startOf (v? : Option Value) : Except SpecError State :=
  match (v?.bind Value.text?).filter (· ≠ "") with
  | some state => .ok state
  | none => .error {
      reason := .missingStartState
      suggestion := some "Assign one using \u0060start state: \u0060" }

def machineTypeOf : Option Value → Except SpecError MachineType
  | none => .ok .default
  | some v =>
    match v.text?.bind MachineType.ofName? with
    | some t => .ok t
    | none => .error {
        reason := .invalidMachineType
        problem := some v.describe
        info := some "Supported machine types are \u00601tape\u0060 and \u00603tape\u0060" }

def inputInfo : String := "The input is written as a string of tape symbols"

def inputSuggestion : String := "Quote the input so it is read as text, e.g. input: '10.50'"

def inputOf : Option Value → Except SpecError (Option String)
  | none => .ok none
  | some v =>
    match v.text? with
    | some s => .ok (some s)
    | none => .error {
        reason := .invalidInputType
        problem := some v.describe
        info := some inputInfo
        suggestion := some inputSuggestion }

/-- The table of a machine of the given type, after its synonyms. -/
def tableOf (type : MachineType) (wild : Option Symbol) (synonyms : Option Value)
    (entries : Dict State Value) : Except SpecError Table :=
  match type with
  | .oneTape => do
    let synonyms ← Grammar.single.synonyms entries.keys synonyms
    return .single (← SingleTable.ofEntries synonyms entries)
  | .threeTape => do
    let synonyms ← (Grammar.multi type.tapes wild).synonyms entries.keys synonyms
    return .multi (← MultiTable.ofEntries type.tapes wild synonyms entries)

def declaredStart (start : State) (entries : Dict State Value) : Except SpecError Unit :=
  if start ∈ entries.keys then .ok ()
  else .error { reason := .undeclaredStartState, problem := some start }

/-- The specification that the entries of a document make. -/
def ofMapping (m : Mapping) : Except SpecError Spec := do
  let blank ← blankOf (field? m "blank")
  let wild ← wildOf (field? m "wild")
  let start ← startOf (field? m "start state")
  let machineType ← machineTypeOf (field? m "type")
  let entries ← stateEntries (field? m "table")
  let table ← tableOf machineType wild (field? m "synonyms") entries
  declaredStart start entries
  let input ← inputOf (field? m "input")
  return ⟨(field? m "name").bind Value.text?, machineType, blank, wild, start, input, table⟩

/-- The specification that a value is. -/
def ofValue (v : Value) : Except SpecError Spec :=
  match v.untagged with
  | .null => .error emptyDocument
  | .mapping m => ofMapping m
  | v => .error {
      reason := .invalidDocumentType
      problem := some v.typeName
      info := some "A machine document is a mapping of fields such as \u0060blank\u0060 and \u0060table\u0060" }

end Spec

end TapeMachine
