import TapeMachine.Yaml.Fault

/-!
# Tokens

The vocabulary of a document: structural marks, some of which (`blockEnd`, and most uses of `key` and
`blockMappingStart`) stand for indentation and not for a character, names, tags and scalars.  A list
of tokens ends with `streamEnd`, or with `broken` where the text goes wrong.
-/

namespace TapeMachine.Yaml

/-- How a scalar is written; only a plain one is open to interpretation. -/
inductive Style where
  | plain
  | quoted
deriving DecidableEq

/-- A tag as written: a handle that stands for a prefix, and the octets that follow the prefix. -/
structure TagName where
  handle : String
  octets : List Nat
deriving DecidableEq

inductive TokenKind where
  | streamStart
  | streamEnd
  | versionDirective (major minor : Nat)
  | tagDirective (handle : String) (octets : List Nat)
  | documentStart
  | documentEnd
  | blockSequenceStart
  | blockMappingStart
  | blockEnd
  | flowSequenceStart
  | flowSequenceEnd
  | flowMappingStart
  | flowMappingEnd
  | blockEntry
  | flowEntry
  | key
  | value
  | reference (name : String)
  | anchor (name : String)
  | tag (name : TagName)
  | scalar (style : Style) (text : String)
  | broken (fault : Fault)
deriving DecidableEq

structure Token where
  kind : TokenKind
  mark : Mark
deriving DecidableEq

end TapeMachine.Yaml
