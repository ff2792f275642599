import TapeMachine.Yaml.Fault
import TapeMachine.Yaml.Value
import TapeMachine.Text.Quoted

/-!
# What goes wrong in reading a document

Besides a fault in its form, a document can be refused for what it says: a scalar that its tag does not
allow, an integer that is too large, a key that comes twice.  Such a refusal names the path to the value
and the place of the innermost node around it.
-/

namespace TapeMachine.Yaml

open TapeMachine (Text.quoted)

/-! ## Paths -/

inductive Step where
  | index (i : Nat)
  | key (text : String)
  /-- The value of a key that is not written as a scalar. -/
  | unnamed
  /-- From a reference to its target. -/
  | target

/-- The way from a value up to the root, innermost step first. -/
abbrev Path := List Step

namespace Path

def describe : Path → String
  | [] => "."
  | .index i :: path => describe path ++ s!"[{i}]"
  | .key text :: path => inside path ++ text
  | .unnamed :: path => inside path ++ "?"
  | .target :: path => describe path
where
  inside : Path → String
    | [] => ""
    | step :: path => describe (step :: path) ++ "."

/-- What stands before a message about a value; the path of the root is left out, and so is one that
reads like it. -/
def heading (path : Path) : String := if path.describe == "." then "" else path.describe ++ ": "

end Path

/-! ## Refusals -/

inductive Refusal where
  | repeatedKey (key : Value)
  | notOfTag (text expected : String)
  | tooWide (i : Int)

namespace Refusal

/-- A key as a message names it. -/
def describeKey : Value → String
  | .null => "with null key"
  | .bool b => s!"with key \u0060{b}\u0060"
  | .number n => "with key " ++ n.text
  | .string s => "with key " ++ Text.quoted s
  | .sequence _ | .mapping _ | .tagged _ _ => "in YAML map"

def message : Refusal → String
  | .repeatedKey key => "duplicate entry " ++ describeKey key
  | .notOfTag text expected => s!"invalid value: string {Text.quoted text}, expected {expected}"
  | .tooWide i =>
    let kind := if i < 0 then "i128" else "u128"
    s!"invalid type: integer \u0060{i}\u0060 as {kind}, expected any YAML value"

end Refusal

inductive ReadError where
  | form (fault : Fault)
  | content (refusal : Refusal) (mark : Mark) (path : Path)
  | tooManyReferences
  | severalDocuments

namespace ReadError

def mark? : ReadError → Option Mark
  | .form fault => some fault.mark
  | .content _ mark _ => some mark
  | .tooManyReferences | .severalDocuments => none

def message : ReadError → String
  | .form fault => fault.message
  | .content refusal mark path =>
    path.heading ++ refusal.message ++ mark.suffix
  | .tooManyReferences => "repetition limit exceeded"
  | .severalDocuments =>
    "deserializing from YAML containing more than one document is not supported"

end ReadError

end TapeMachine.Yaml
