import TapeMachine.Yaml.Token

/-!
# Folding of lines

Blanks inside a plain or a quoted scalar are held back until it is known what follows them.  Spaces
within a line stand for themselves; a single line break stands for a space; of several breaks the
first is dropped.  The separators of Unicode are kept, and so are the breaks after an escaped one.
-/

namespace TapeMachine.Yaml

/-- The blanks since the last character of a scalar, each list with the newest first. -/
inductive Gap where
  | none
  | spaces (blanks : List Char)
  | breaks (first : Char) (later : List Char)
  | escapedBreak (later : List Char)
deriving DecidableEq

namespace Gap

def isNone : Gap → Bool
  | .none => true
  | _ => false

/-- Whether the gap spans lines. -/
def isBroken : Gap → Bool
  | .none | .spaces _ => false
  | .breaks _ _ | .escapedBreak _ => true

/-- Spaces and tabs count only within a line. -/
def addSpace (c : Char) : Gap → Gap
  | .none => .spaces [c]
  | .spaces blanks => .spaces (c :: blanks)
  | gap => gap

def addBreak (c : Char) : Gap → Gap
  | .none | .spaces _ => .breaks c []
  | .breaks first later => .breaks first (c :: later)
  | .escapedBreak later => .escapedBreak (c :: later)

/-- What the gap stands for, newest first. -/
def folded : Gap → List Char
  | .none => []
  | .spaces blanks => blanks
  | .breaks first later =>
    if first == '\n' then if later.isEmpty then [' '] else later else later ++ [first]
  | .escapedBreak later => later

end Gap

end TapeMachine.Yaml
