import TapeMachine.Document.Fields
import TapeMachine.Text.Cut
import TapeMachine.Text.Space
import TapeMachine.Yaml.Reading

/-!
# Parsing a document

From the text of a document to its specification.  A text of nothing but comments is empty, and where
the text cannot be read because an integer in it is too wide, the hint is to quote it.
-/

namespace TapeMachine

open Yaml (ReadError)

def SyntaxError.ofReadError (e : ReadError) : SyntaxError where
  message := e.message
  line := e.mark?.map (·.line + 1)
  column := e.mark?.map (·.column + 1)

namespace Spec

/-- Whether a line holds nothing but white space and a comment. -/
def isBlankLine (line : List Char) : Bool :=
  match Text.trimStart line with
  | [] => true
  | c :: _ => c == '#'

def isBlankText (text : List Char) : Bool := (Text.lines text).all isBlankLine

/-- The error for an integer that is too wide, which the message about it shows. -/
def wideInteger? (message : String) : Option SpecError := do
  let (before, after) ← Text.cut? "invalid type: integer \u0060".toList message.toList
  let (digits, rest) ← Text.cut? ['\u0060'] after
  guard (" as u128".toList.isPrefixOf rest || " as i128".toList.isPrefixOf rest)
  let problem := String.ofList digits
  if Text.trimEndMarks ": ".toList before = "input".toList then
    return {
      reason := .invalidInputType
      problem := some problem
      info := some inputInfo
      suggestion := some inputSuggestion }
  else
    return {
      reason := .invalidSymbol
      problem := some problem
      suggestion := some quoteSuggestion }

/-- The error for a text that cannot be read. -/
def readingError (e : ReadError) : ParseError :=
  match wideInteger? e.message with
  | some e => .invalid e
  | none => .malformed (.ofReadError e)

/-- The specification that a text describes. -/
def parse (text : String) : Except ParseError Spec :=
  if isBlankText text.toList then .error (.invalid emptyDocument)
  else
    match Yaml.read text.toList with
    | .error e => .error (readingError e)
    | .ok v => (ofValue v).mapError .invalid

end Spec

end TapeMachine
