/-!
# What is wrong with a document

Either the text is not well-formed, or what it says is no machine.  In the latter case the error has a
reason, tells where the defect is (in a state, in a transition of a state, or in a synonym) and how it
can be mended.
-/

namespace TapeMachine

inductive Reason where
  | emptyDocument
  | invalidDocumentType
  | missingBlank
  | invalidBlankLength
  | invalidWildLength
  | missingStartState
  | undeclaredStartState
  | invalidMachineType
  | invalidInputType
  | missingTable
  | invalidTableType
  | duplicateState
  | invalidSynonymsType
  | invalidStateEntryType
  | invalidSymbol
  | duplicateSymbol
  | invalidPattern
  | missingInstruction
  | invalidInstructionType
  | unrecognizedString
  | unrecognizedKey
  | missingMovementDirection
  | conflictingTapeMovements
  | invalidWriteLength
  | invalidTapeMove
  | invalidMoveLength
  | invalidMoveChar
  | invalidStateName
  | undeclaredState
deriving DecidableEq

def Reason.message : Reason → String
  | .emptyDocument => "The document is empty"
  | .invalidDocumentType => "The document has an invalid type"
  | .missingBlank => "No blank symbol was specified"
  | .invalidBlankLength => "The blank symbol must be a string of length 1"
  | .invalidWildLength => "The wildcard symbol must be a string of length 1"
  | .missingStartState => "No start state was specified"
  | .undeclaredStartState => "The start state has to be declared in the transition table"
  | .invalidMachineType => "Unrecognized machine type"
  | .invalidInputType => "The input has an invalid type"
  | .missingTable => "Missing transition table"
  | .invalidTableType => "Transition table has an invalid type"
  | .duplicateState => "Duplicate state"
  | .invalidSynonymsType => "Synonyms table has an invalid type"
  | .invalidStateEntryType => "State entry has an invalid type"
  | .invalidSymbol => "A tape symbol must be a string of length 1"
  | .duplicateSymbol => "Duplicate symbol"
  | .invalidPattern => "Pattern length does not match the number of tapes"
  | .missingInstruction => "Missing instruction"
  | .invalidInstructionType => "Invalid instruction type"
  | .unrecognizedString => "Unrecognized string"
  | .unrecognizedKey => "Unrecognized key"
  | .missingMovementDirection => "Missing movement direction"
  | .conflictingTapeMovements => "Conflicting tape movements"
  | .invalidWriteLength => "Write requires one symbol per tape"
  | .invalidTapeMove => "Invalid tape movement"
  | .invalidMoveLength => "Move requires one direction per tape"
  | .invalidMoveChar => "Invalid movement direction"
  | .invalidStateName => "A state name must be a plain string"
  | .undeclaredState => "Undeclared state"

/-- A defect of the machine that a document describes. -/
structure SpecError where
  reason : Reason
  state : Option String := none
  symbol : Option String := none
  synonym : Option String := none
  /-- The text that is wrong. -/
  problem : Option String := none
  info : Option String := none
  suggestion : Option String := none
deriving DecidableEq

namespace SpecError

def inState (e : SpecError) (state : String) : SpecError := { e with state := some state }

def inTransition (e : SpecError) (state symbol : String) : SpecError :=
  { e with state := some state, symbol := some symbol }

def inSynonym (e : SpecError) (synonym : String) : SpecError := { e with synonym := some synonym }

def location : SpecError → String
  | { state := some state, symbol := some symbol, .. } =>
    s!" in the transition from state \u0060{state}\u0060 and symbol \u0060{symbol}\u0060"
  | { state := some state, symbol := none, .. } => s!" for state \u0060{state}\u0060"
  | { state := none, synonym := some synonym, .. } =>
    s!" in the definition of synonym \u0060{synonym}\u0060"
  | { state := none, synonym := none, .. } => ""

def display (e : SpecError) : String :=
  let problem := (e.problem.map fun text => s!" \u0060{text}\u0060").getD ""
  let sentences := [e.info, e.suggestion].filterMap fun text? => text?.map fun text => s!" {text}."
  e.reason.message ++ problem ++ e.location ++ "." ++ String.join sentences

end SpecError

/-- A text that is not well-formed; lines and columns are counted from one. -/
structure SyntaxError where
  message : String
  line : Option Nat
  column : Option Nat
deriving DecidableEq

def SyntaxError.display (e : SyntaxError) : String :=
  match e.line, e.column with
  | some line, some column => s!"Syntax error at line {line}, column {column}: {e.message}"
  | _, _ => s!"Syntax error: {e.message}"

inductive ParseError where
  | malformed (e : SyntaxError)
  | invalid (e : SpecError)
deriving DecidableEq

namespace ParseError

def display : ParseError → String
  | .malformed e => e.display
  | .invalid e => e.display

def reason? : ParseError → Option Reason
  | .malformed _ => none
  | .invalid e => some e.reason

end ParseError

end TapeMachine
