import TapeMachine.Instruction
import TapeMachine.Yaml.Value

/-!
# Scalars as they were typed

Names, symbols and patterns are read as texts even where the value is a number or a truth value: `0` is
the symbol zero.  The text of a floating-point number is not known any more once it has been read, so
such a number has none.
-/

namespace TapeMachine

/-- The character of a text that has only one. -/
def soleChar? (s : String) : Option Char :=
  match s.toList with
  | [c] => some c
  | _ => none

theorem soleChar?_eq_some_iff {s : String} {c : Char} : soleChar? s = some c ↔ s.toList = [c] := by
  unfold soleChar?
  split <;> simp_all

namespace Yaml.Value

/-- The text of a scalar. -/
def text? : Value → Option String
  | .string s => some s
  | .number (.integer i) => some (toString i)
  | .bool b => some (if b then "true" else "false")
  | .tagged _ v => v.text?
  | _ => none

/-- The symbol that a scalar of one character stands for. -/
def symbol? (v : Value) : Option Symbol := v.text?.bind soleChar?

/-- The value under its tags, unless it is null. -/
def present? (v : Value) : Option Value :=
  match v.untagged with
  | .null => none
  | v => some v

/-- The kind of a value, for messages. -/
def typeName : Value → String
  | .null => "null"
  | .bool _ => "boolean"
  | .number _ => "number"
  | .string _ => "string"
  | .sequence _ => "sequence"
  | .mapping _ => "mapping"
  | .tagged _ _ => "tagged value"

mutual

/-- A value, for messages. -/
def describe : Value → String
  | .sequence items => "[" ++ ", ".intercalate (describeItems items) ++ "]"
  | .number n => n.text
  | .tagged _ v => v.describe
  | v => v.text?.getD v.typeName

def describeItems : List Value → List String
  | [] => []
  | item :: items => item.describe :: describeItems items

end

@[simp] theorem text?_untagged (v : Value) : v.untagged.text? = v.text? := by
  fun_induction untagged v with
  | case1 _ v ih => rw [ih, text?]
  | case2 => rfl

@[simp] theorem untagged_untagged (v : Value) : v.untagged.untagged = v.untagged := by
  fun_induction untagged v with
  | case1 _ v ih => exact ih
  | case2 v h =>
    cases v with
    | tagged t v => exact absurd rfl (h t v)
    | _ => rfl

end Yaml.Value

/-! ## Directions -/

/-- The direction that a text of one letter stands for. -/
def direction? (s : String) : Option Direction := (soleChar? s).bind Direction.ofLetter?

/-- The directions that the letters of a text stand for. -/
def directions? (s : String) : Option (List Direction) := s.toList.mapM Direction.ofLetter?

end TapeMachine
