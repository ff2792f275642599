/-!
# Tags

A tag is a list of octets.  A few tags of the language itself say how a scalar is to be read; one that
begins with a bang is local to the document and becomes part of the value; any other one only says that
a scalar is a text.
-/

namespace TapeMachine.Yaml

inductive Tag where
  | bool
  | integer
  | float
  | null
  | text
  | ofDocument (name : String)
  /-- A local tag whose octets encode no text. -/
  | unreadable
deriving DecidableEq

namespace Tag

def corePrefix : String := "tag:yaml.org,2002:"

/-- The tag without its bang, where something follows the bang. -/
def withoutBang (cs : List Char) : List Char :=
  match cs with
  | '!' :: c :: cs => c :: cs
  | cs => cs

def ofText (s : String) : Tag :=
  if s == corePrefix ++ "bool" then .bool
  else if s == corePrefix ++ "int" then .integer
  else if s == corePrefix ++ "float" then .float
  else if s == corePrefix ++ "null" then .null
  else if s.toList.head? == some '!' then
    .ofDocument (String.ofList (withoutBang (withoutBang s.toList)))
  else .text

/-- The tag of some octets. -/
def ofOctets (octets : List Nat) : Tag :=
  match String.fromUTF8? (ByteArray.mk (octets.map UInt8.ofNat).toArray) with
  | some s => ofText s
  | none => if octets.head? == some '!'.toNat then .unreadable else .text

end Tag

end TapeMachine.Yaml
