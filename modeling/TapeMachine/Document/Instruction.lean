import TapeMachine.Dict
import TapeMachine.Document.Error
import TapeMachine.Document.Scalar

/-!
# Instructions in a document

An instruction is written as a string or as a mapping, by a grammar for one tape and another for several.
The two have in common what a synonym is, and that an instruction may only lead to a declared state.
-/

namespace TapeMachine

open Yaml (Value)

abbrev Mapping := List (Value × Value)

/-! ## Synonyms -/

/-- How a name is understood that might be a synonym. -/
inductive Synonyms (ι : Type) where
  /-- While the synonyms are being defined none of them can be used. -/
  | unavailable (names : List String)
  | resolved (bodies : Dict String ι)

def unrecognizedString (s : String) : SpecError where
  reason := .unrecognizedString
  problem := some s
  info := some "An instruction can be a string if it's a synonym or a direction"

/-- The body of the synonym with the given name, if there is one. -/
def Synonyms.body? {ι : Type} (name : String) : Synonyms ι → Except SpecError (Option ι)
  | .unavailable names =>
    if names.contains name then .error (unrecognizedString name) else .ok none
  | .resolved bodies => .ok (bodies.get? name)

/-! ## Parts of both grammars -/

/-- A next state; null names none. -/
def nextState (v : Value) : Except SpecError (Option State) :=
  match v.present? with
  | none => .ok none
  | some v =>
    match v.text? with
    | some s => .ok (some s)
    | none => .error { reason := .invalidStateName, problem := some v.describe }

/-- The key of an entry of an instruction. -/
def instructionKey (key : Value) : Except SpecError String :=
  match key.text? with
  | some s => .ok s
  | none => .error { reason := .unrecognizedKey, problem := some key.describe }

def quoteSuggestion : String := "Quote symbols and patterns that look like numbers, e.g. '001'"

/-! ## One tape -/

namespace SingleInstruction

/-- A direction, a synonym, or the state to go to without moving. -/
def ofString (synonyms : Synonyms SingleInstruction) (s : String) :
    Except SpecError SingleInstruction :=
  match direction? s with
  | some d => .ok ⟨none, d, none⟩
  | none => do
    match ← synonyms.body? s with
    | some i => return i
    | none => return ⟨none, .stay, some s⟩

/-- What an entry of an instruction says. -/
inductive Part where
  | write (v : Value)
  | move (d : Direction) (next : Value)

def Part.ofEntry (entry : Value × Value) : Except SpecError Part := do
  let key ← instructionKey entry.1
  if key = "write" then return .write entry.2
  match direction? key with
  | some d => return .move d entry.2
  | none => throw {
      reason := .unrecognizedKey
      problem := some key
      info := some "An instruction always has a tape movement \u0060L\u0060, \u0060R\u0060, or \u0060S\u0060 (stay), and optionally can \u0060write\u0060 a symbol" }

def Part.move? : Part → Option (Direction × Value)
  | .move d next => some (d, next)
  | .write _ => none

def Part.write? : Part → Option Value
  | .write v => some v
  | .move _ _ => none

/-- The symbol to write; null writes none. -/
def writeOf (v : Value) : Except SpecError (Option Symbol) :=
  match v.present? with
  | none => .ok none
  | some v =>
    match v.symbol? with
    | some c => .ok (some c)
    | none => .error {
        reason := .invalidWriteLength
        problem := some v.describe
        info := some "A single-tape write is exactly one symbol" }

/-- One movement with the next state, and perhaps a symbol to write; the last one counts. -/
def ofMapping (m : Mapping) : Except SpecError SingleInstruction := do
  let parts ← m.mapM Part.ofEntry
  match parts.filterMap Part.move? with
  | [] => throw { reason := .missingMovementDirection }
  | [(d, next)] =>
    let write ← writeOf (((parts.filterMap Part.write?).getLast?).getD .null)
    return ⟨write, d, ← nextState next⟩
  | _ => throw {
      reason := .conflictingTapeMovements
      info := some "Each instruction needs exactly one movement direction, but more were found" }

end SingleInstruction

/-! ## Several tapes -/

namespace MultiInstruction

def invalidMove (reason : Reason) (tape : Nat) (letter : Char) : SpecError where
  reason := reason
  problem := some (String.singleton letter)
  info := some s!"Tape {tape} must move \u0060L\u0060, \u0060R\u0060 or \u0060S\u0060"

/-- The first letter that is no direction, with its place. -/
def badLetter? (letters : List Char) : Option (Char × Nat) :=
  letters.zipIdx.find? fun (c, _) => (Direction.ofLetter? c).isNone

/-- One direction for each tape, or a synonym. -/
def ofString (tapes : Nat) (synonyms : Synonyms MultiInstruction) (s : String) :
    Except SpecError MultiInstruction :=
  match if s.length = tapes then directions? s else none with
  | some moves => .ok ⟨none, some moves, none⟩
  | none => do
    match ← synonyms.body? s with
    | some i => return i
    | none =>
      match if s.length = tapes then badLetter? s.toList else none with
      | some (c, tape) => throw (invalidMove .invalidTapeMove tape c)
      | none => throw (unrecognizedString s)

/-- The characters of a scalar; other values have none. -/
def charsOf (v : Value) : List Char := (v.text?.map String.toList).getD []

/-- One symbol for each tape; where it is the wildcard nothing is written. -/
def writeOf (tapes : Nat) (wildcard : Option Symbol) (v : Value) :
    Except SpecError (List (Option Symbol)) :=
  if (charsOf v).length = tapes then
    .ok ((charsOf v).map fun c => if some c = wildcard then none else some c)
  else .error {
    reason := .invalidWriteLength
    problem := some v.describe
    info := some s!"Expected {tapes} symbols, one per tape"
    suggestion := some quoteSuggestion }

/-- One direction for each tape. -/
def movesOf (tapes : Nat) (v : Value) : Except SpecError (List Direction) :=
  if (charsOf v).length = tapes then
    (charsOf v).zipIdx.mapM fun (c, tape) =>
      match Direction.ofLetter? c with
      | some d => .ok d
      | none => .error (invalidMove .invalidMoveChar tape c)
  else .error {
    reason := .invalidMoveLength
    problem := some v.describe
    info := some s!"Expected {tapes} movement letters (\u0060L\u0060, \u0060R\u0060 or \u0060S\u0060), one per tape" }

/-- The instruction with what one more entry says; null says nothing. -/
def addEntry (tapes : Nat) (wildcard : Option Symbol) (i : MultiInstruction)
    (entry : Value × Value) : Except SpecError MultiInstruction := do
  let key ← instructionKey entry.1
  if ¬ key ∈ ["write", "move", "next"] then
    throw {
      reason := .unrecognizedKey
      problem := some key
      info := some "A multi-tape instruction may have \u0060write\u0060, \u0060move\u0060 and \u0060next\u0060 keys" }
  match entry.2.present? with
  | none => return i
  | some v =>
    if key = "write" then return { i with write := some (← writeOf tapes wildcard v) }
    else if key = "move" then return { i with moves := some (← movesOf tapes v) }
    else return { i with next := ← nextState v }

/-- What the entries say, each of them after those before it. -/
def ofMapping (tapes : Nat) (wildcard : Option Symbol) (m : Mapping) :
    Except SpecError MultiInstruction :=
  m.foldlM (addEntry tapes wildcard) ⟨none, none, none⟩

end MultiInstruction

/-! ## Grammars -/

/-- How the instructions of a kind of machine are written. -/
structure Grammar (ι : Type) where
  ofString : Synonyms ι → String → Except SpecError ι
  ofMapping : Mapping → Except SpecError ι
  next : ι → Option State
  /-- What an instruction can be. -/
  forms : String

namespace Grammar

def single : Grammar SingleInstruction where
  ofString := SingleInstruction.ofString
  ofMapping := SingleInstruction.ofMapping
  next := SingleInstruction.next
  forms := "An instruction can be a string (a direction \u0060L\u0060/\u0060R\u0060/\u0060S\u0060, a synonym or a state) or a mapping (examples: \u0060\x7bR: accept\x7d\u0060, \u0060\x7bwrite: ' ', L: start\x7d\u0060)"

def multi (tapes : Nat) (wildcard : Option Symbol) : Grammar MultiInstruction where
  ofString := MultiInstruction.ofString tapes
  ofMapping := MultiInstruction.ofMapping tapes wildcard
  next := MultiInstruction.next
  forms := "A multi-tape instruction can be a string of movement letters (e.g. \u0060RRS\u0060), a synonym, or a mapping (example: \u0060\x7bwrite: '1_1', move: RSL, next: done\x7d\u0060)"

variable {ι : Type}

def undeclaredState (state : State) : SpecError where
  reason := .undeclaredState
  problem := some state
  suggestion := some "Make sure to list all states in the transition table and define their transitions (if any)"

/-- The instruction, unless it leads to a state that is not declared. -/
def checked (g : Grammar ι) (states : List State) (i : ι) : Except SpecError ι :=
  match g.next i with
  | none => .ok i
  | some state => if state ∈ states then .ok i else .error (undeclaredState state)

/-- The instruction that a value says, before its next state is checked. -/
def form (g : Grammar ι) (synonyms : Synonyms ι) (v : Value) : Except SpecError ι :=
  match v.untagged with
  | .string s => g.ofString synonyms s
  | .mapping m => g.ofMapping m
  | .null => .error { reason := .missingInstruction }
  | v => .error {
      reason := .invalidInstructionType
      problem := some v.typeName
      info := some g.forms }

/-- The instruction that a value says. -/
def instruction (g : Grammar ι) (states : List State) (synonyms : Synonyms ι) (v : Value) :
    Except SpecError ι := do
  g.checked states (← g.form synonyms v)

/-! ### Defining synonyms -/

/-- An error in the definition of a synonym. -/
def synonymError (name : String) (e : SpecError) : SpecError :=
  if e.reason = .unrecognizedString then
    { e.inSynonym name with
      info := some "Note that a synonym cannot be defined using another synonym" }
  else e.inSynonym name

/-- The name that a key gives to a synonym. -/
def synonymName (key : Value) : Except SpecError String :=
  match key.text? with
  | some s => .ok s
  | none => .error {
      reason := .unrecognizedKey
      problem := some key.describe
      info := some "Synonym names must be plain strings" }

/-- The synonyms with one more entry, where all of them together have the given names. -/
def addSynonym (g : Grammar ι) (states : List State) (names : List String) (d : Dict String ι)
    (entry : Value × Value) : Except SpecError (Dict String ι) := do
  let name ← synonymName entry.1
  let i ← (g.instruction states (.unavailable names) entry.2).mapError (synonymError name)
  return d.insert name i

/-- The synonyms of a document, of which none can be used to define another. -/
def synonyms (g : Grammar ι) (states : List State) : Option Value → Except SpecError (Dict String ι)
  | none => .ok .empty
  | some (.mapping m) => m.foldlM (g.addSynonym states (m.filterMap (·.1.text?))) .empty
  | some v => .error {
      reason := .invalidSynonymsType
      problem := some v.typeName
      info := some "Synonyms should be a mapping from string abbreviations to instructions (e.g. \u0060accept: \x7bR: accept\x7d\u0060)" }

end Grammar

end TapeMachine
