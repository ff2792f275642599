import TapeMachine.Document.Instruction
import TapeMachine.Table

/-!
# Tables in a document

The table is a mapping from states to rows, and a row is a mapping from symbols or patterns to
instructions; a state whose row is null or empty is a halting state.  For one tape a key may also be a
sequence of symbols, which all get the same instruction.
-/

namespace TapeMachine

open Yaml (Value)

/-! ## States -/

/-- The entries with one more, whose key names a state. -/
def addState (d : Dict State Value) (entry : Value × Value) :
    Except SpecError (Dict State Value) :=
  match entry.1.text? with
  | none => .error { reason := .invalidStateName, problem := some entry.1.describe }
  | some state =>
    match d.add? state entry.2.untagged with
    | some d => .ok d
    | none => .error { reason := .duplicateState, problem := some state }

/-- The declared states with what the table says of them. -/
def stateEntries : Option Value → Except SpecError (Dict State Value)
  | none => .error { reason := .missingTable, suggestion := some "Specify one using \u0060table:\u0060" }
  | some (.mapping m) => m.foldlM addState .empty
  | some v => .error {
      reason := .invalidTableType
      problem := some v.typeName
      info := some "The transition table should be a nested mapping from states to symbols to instructions" }

/-- The row of a state; a halting state has none. -/
def row? (state : State) : Value → Except SpecError (Option Mapping)
  | .null => .ok none
  | .mapping [] => .ok none
  | .mapping m => .ok (some m)
  | v => .error (SpecError.inState {
      reason := .invalidStateEntryType
      problem := some v.typeName
      info := some "Each state should map symbols to instructions. An empty map signifies a halting state" } state)

/-! ## One tape -/

namespace SingleTable

def invalidSymbol (key : Value) : SpecError where
  reason := .invalidSymbol
  problem := some key.describe
  suggestion := some quoteSuggestion

/-- The symbols that a key stands for. -/
def keySymbols? (key : Value) : Option (List Symbol) :=
  match key.untagged with
  | .sequence (item :: items) => (item :: items).mapM Value.symbol?
  | v => v.symbol?.map ([·])

def keySymbols (key : Value) : Except SpecError (List Symbol) :=
  match keySymbols? key with
  | some symbols => .ok symbols
  | none => .error (invalidSymbol key)

def addSymbol (state : State) (i : SingleInstruction) (row : Dict Symbol SingleInstruction)
    (symbol : Symbol) : Except SpecError (Dict Symbol SingleInstruction) :=
  match row.add? symbol i with
  | some row => .ok row
  | none => .error (SpecError.inState {
      reason := .duplicateSymbol
      problem := some (String.singleton symbol)
      info := some "Each symbol may appear only once per state" } state)

/-- The row with one more entry. -/
def addEntry (states : List State) (synonyms : Dict String SingleInstruction) (state : State)
    (row : Dict Symbol SingleInstruction) (entry : Value × Value) :
    Except SpecError (Dict Symbol SingleInstruction) := do
  let here := fun (e : SpecError) => e.inTransition state entry.1.describe
  let symbols ← (keySymbols entry.1).mapError here
  let i ← (Grammar.single.instruction states (.resolved synonyms) entry.2).mapError here
  symbols.foldlM (addSymbol state i) row

def row (states : List State) (synonyms : Dict String SingleInstruction) (state : State)
    (v : Value) : Except SpecError (Option (Dict Symbol SingleInstruction)) := do
  match ← row? state v with
  | none => return none
  | some m => return some (← m.foldlM (addEntry states synonyms state) .empty)

def ofEntries (synonyms : Dict String SingleInstruction) (entries : Dict State Value) :
    Except SpecError SingleTable := do
  return ⟨← entries.traverse (row entries.keys synonyms)⟩

end SingleTable

/-! ## Several tapes -/

namespace MultiTable

def invalidPattern (tapes : Nat) (key : Value) : SpecError where
  reason := .invalidPattern
  problem := some key.describe
  info := some s!"A pattern has exactly {tapes} symbols, one per tape"
  suggestion := some quoteSuggestion

/-- The pattern that a key stands for. -/
def keyPattern? (tapes : Nat) (key : Value) : Option Pattern :=
  (key.text?.map String.toList).filter (·.length == tapes)

/-- The rules with one more, from an entry of the row. -/
def addEntry (tapes : Nat) (wildcard : Option Symbol) (states : List State)
    (synonyms : Dict String MultiInstruction) (state : State) (rules : List Rule)
    (entry : Value × Value) : Except SpecError (List Rule) := do
  match keyPattern? tapes entry.1 with
  | none => throw ((invalidPattern tapes entry.1).inState state)
  | some pattern =>
    if pattern ∈ rules.map Rule.pattern then
      throw (SpecError.inState {
        reason := .duplicateSymbol
        problem := some entry.1.describe
        info := some "Each pattern may appear only once per state" } state)
    let i ← ((Grammar.multi tapes wildcard).instruction states (.resolved synonyms)
      entry.2).mapError (·.inTransition state entry.1.describe)
    return rules ++ [⟨pattern, i⟩]

def row (tapes : Nat) (wildcard : Option Symbol) (states : List State)
    (synonyms : Dict String MultiInstruction) (state : State) (v : Value) :
    Except SpecError (Option (List Rule)) := do
  match ← row? state v with
  | none => return none
  | some m => return some (← m.foldlM (addEntry tapes wildcard states synonyms state) [])

def ofEntries (tapes : Nat) (wildcard : Option Symbol) (synonyms : Dict String MultiInstruction)
    (entries : Dict State Value) : Except SpecError MultiTable := do
  return ⟨tapes, wildcard, ← entries.traverse (row tapes wildcard entries.keys synonyms)⟩

end MultiTable

end TapeMachine
