import TapeMachine.Number.Shortest

/-!
# Values

What a document says, once its scalars are interpreted.  Two keys of a mapping are the same if they are
equal as values; the order of the entries of a mapping does not matter for that.
-/

namespace TapeMachine.Yaml

open TapeMachine.Number (Binary64)

inductive Numeral where
  | integer (i : Int)
  | float (x : Binary64)
deriving DecidableEq

inductive Value where
  | null
  | bool (b : Bool)
  | number (n : Numeral)
  | string (s : String)
  | sequence (items : List Value)
  | mapping (entries : List (Value × Value))
  | tagged (tag : String) (value : Value)

namespace Numeral

def text : Numeral → String
  | .integer i => toString i
  | .float x => x.text

def same : Numeral → Numeral → Bool
  | .integer i, .integer j => i == j
  | .float x, .float y => x.sameNumber y
  | _, _ => false

end Numeral

namespace Value

mutual

/-- Equality of values. -/
def same : Value → Value → Bool
  | .null, .null => true
  | .bool a, .bool b => a == b
  | .number m, .number n => m.same n
  | .string s, .string t => s == t
  | .sequence xs, .sequence ys => sameItems xs ys
  | .mapping xs, .mapping ys => xs.length == ys.length && sameEntries xs ys
  | .tagged s x, .tagged t y => s == t && same x y
  | _, _ => false

def sameItems : List Value → List Value → Bool
  | [], [] => true
  | x :: xs, y :: ys => same x y && sameItems xs ys
  | _, _ => false

/-- Whether each entry is among the others. -/
def sameEntries : List (Value × Value) → List (Value × Value) → Bool
  | [], _ => true
  | (key, value) :: xs, ys =>
    (ys.any fun (k, v) => same key k && same value v) && sameEntries xs ys

end

/-- The value under its tags. -/
def untagged : Value → Value
  | .tagged _ v => v.untagged
  | v => v

end Value

end TapeMachine.Yaml
