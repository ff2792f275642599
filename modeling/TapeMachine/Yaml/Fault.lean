import TapeMachine.Yaml.Glyph

/-!
# Malformed text

What can be wrong with the form of a text: a `Problem` at a place, and often the construct that was
being read when it showed, with the place where that construct starts.
-/

namespace TapeMachine.Yaml

inductive Problem where
  | forbiddenCharacter (offset : Nat)
  | keyWithoutColon
  | entryNotAllowed
  | keyNotAllowed
  | valueNotAllowed
  | noTokenStart
  | directiveNameMissing
  | directiveNameCharacter
  | directiveUnknown
  | lineNotEnded
  | versionTooLong
  | versionMissing
  | versionPointMissing
  | spaceMissing
  | spaceOrBreakMissing
  | nameMissing
  | verbatimTagOpen
  | bangMissing
  | tagMissing
  | octetEscapeMissing
  | leadingOctet
  | trailingOctet
  | indentationZero
  | tabInIndentation
  | tabBeforePlain
  | colonInPlain
  | ruleInQuotes
  | textEndsInQuotes
  | escapeUnknown
  | escapeNotHexadecimal
  | escapeNotCharacter
  | documentStartMissing
  | contentMissing
  | tagHandleUndefined
  | dashMissing
  | keyMissing
  | sequenceCommaMissing
  | mappingCommaMissing
  | versionRepeated
  | versionUnsupported
  | tagDirectiveRepeated
  | anchorUnknown
  | nestingTooDeep
deriving DecidableEq

def Problem.message : Problem → String
  | .forbiddenCharacter _ => "control characters are not allowed"
  | .keyWithoutColon => "could not find expected ':'"
  | .entryNotAllowed => "block sequence entries are not allowed in this context"
  | .keyNotAllowed => "mapping keys are not allowed in this context"
  | .valueNotAllowed => "mapping values are not allowed in this context"
  | .noTokenStart => "found character that cannot start any token"
  | .directiveNameMissing => "could not find expected directive name"
  | .directiveNameCharacter => "found unexpected non-alphabetical character"
  | .directiveUnknown => "found unknown directive name"
  | .lineNotEnded => "did not find expected comment or line break"
  | .versionTooLong => "found extremely long version number"
  | .versionMissing => "did not find expected version number"
  | .versionPointMissing => "did not find expected digit or '.' character"
  | .spaceMissing => "did not find expected whitespace"
  | .spaceOrBreakMissing => "did not find expected whitespace or line break"
  | .nameMissing => "did not find expected alphabetic or numeric character"
  | .verbatimTagOpen => "did not find the expected '>'"
  | .bangMissing => "did not find expected '!'"
  | .tagMissing => "did not find expected tag URI"
  | .octetEscapeMissing => "did not find URI escaped octet"
  | .leadingOctet => "found an incorrect leading UTF-8 octet"
  | .trailingOctet => "found an incorrect trailing UTF-8 octet"
  | .indentationZero => "found an indentation indicator equal to 0"
  | .tabInIndentation => "found a tab character where an indentation space is expected"
  | .tabBeforePlain => "found a tab character that violates indentation"
  | .colonInPlain => "found unexpected ':'"
  | .ruleInQuotes => "found unexpected document indicator"
  | .textEndsInQuotes => "found unexpected end of stream"
  | .escapeUnknown => "found unknown escape character"
  | .escapeNotHexadecimal => "did not find expected hexadecimal number"
  | .escapeNotCharacter => "found invalid Unicode character escape code"
  | .documentStartMissing => "did not find expected <document start>"
  | .contentMissing => "did not find expected node content"
  | .tagHandleUndefined => "found undefined tag handle"
  | .dashMissing => "did not find expected '-' indicator"
  | .keyMissing => "did not find expected key"
  | .sequenceCommaMissing => "did not find expected ',' or ']'"
  | .mappingCommaMissing => "did not find expected ',' or '\x7d'"
  | .versionRepeated => "found duplicate %YAML directive"
  | .versionUnsupported => "found incompatible YAML document"
  | .tagDirectiveRepeated => "found duplicate %TAG directive"
  | .anchorUnknown => "unknown anchor"
  | .nestingTooDeep => "recursion limit exceeded"

/-- What was being read when a problem showed. -/
inductive Construct where
  | simpleKey
  | nextToken
  | directive
  | versionDirective
  | tagDirective
  | tagDirectiveHandle
  | tagDirectiveHandleEnd
  | tagDirectiveAddress
  | anchor
  | reference
  | tag
  | tagAddress
  | blockScalar
  | quotedScalar
  | quotedEscape
  | plainScalar
  | node
  | blockNode
  | flowNode
  | blockSequence
  | blockMapping
  | flowSequence
  | flowMapping
deriving DecidableEq

def Construct.message : Construct → String
  | .simpleKey => "while scanning a simple key"
  | .nextToken => "while scanning for the next token"
  | .directive => "while scanning a directive"
  | .versionDirective => "while scanning a %YAML directive"
  | .tagDirective => "while scanning a %TAG directive"
  | .tagDirectiveHandle => "while scanning a tag directive"
  | .tagDirectiveHandleEnd => "while parsing a tag directive"
  | .tagDirectiveAddress => "while parsing a %TAG directive"
  | .anchor => "while scanning an anchor"
  | .reference => "while scanning an alias"
  | .tag => "while scanning a tag"
  | .tagAddress => "while parsing a tag"
  | .blockScalar => "while scanning a block scalar"
  | .quotedScalar => "while scanning a quoted scalar"
  | .quotedEscape => "while parsing a quoted scalar"
  | .plainScalar => "while scanning a plain scalar"
  | .node => "while parsing a node"
  | .blockNode => "while parsing a block node"
  | .flowNode => "while parsing a flow node"
  | .blockSequence => "while parsing a block collection"
  | .blockMapping => "while parsing a block mapping"
  | .flowSequence => "while parsing a flow sequence"
  | .flowMapping => "while parsing a flow mapping"

/-- A defect in the form of a text. -/
structure Fault where
  problem : Problem
  mark : Mark
  context : Option (Construct × Mark)
deriving DecidableEq

namespace Fault

def bare (problem : Problem) (mark : Mark) : Fault := ⟨problem, mark, none⟩

def within (construct : Construct) (start : Mark) (problem : Problem) (mark : Mark) : Fault :=
  ⟨problem, mark, some (construct, start)⟩

/-- The place of the problem: a byte offset serves where there is no line. -/
def placeSuffix (f : Fault) : String :=
  match f.problem with
  | .forbiddenCharacter offset => if offset == 0 then "" else s!" at position {offset}"
  | _ => f.mark.suffix

/-- The construct, with its start unless that is the place of the problem. -/
def contextSuffix (f : Fault) : String :=
  match f.context with
  | none => ""
  | some (construct, start) =>
    ", " ++ construct.message ++ if start.samePlace f.mark then "" else start.suffix

def message (f : Fault) : String := f.problem.message ++ f.placeSuffix ++ f.contextSuffix

end Fault

end TapeMachine.Yaml
