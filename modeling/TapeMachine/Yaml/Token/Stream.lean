import TapeMachine.Yaml.Token.Plain
import TapeMachine.Yaml.Token.Block
import TapeMachine.Yaml.Token.Tag

/-!
# The token stream

A text is cut into tokens from left to right.  Two kinds of token are not written in the text.  The
indentation of block collections opens and closes them; and a node turns out to be a key only when the
colon after it is met, so that the `key` token is put in front of it afterwards.  Until then the node is
a candidate: it must lie on one line and within 1024 octets of its colon.

A token is final once no candidate stands at or before it.  When the text goes wrong, the stream is
made of the tokens that were final, followed by `broken`.  A character that is not allowed breaks the
text off before the piece in which it stands, so that what goes wrong in earlier pieces shows first.
-/

namespace TapeMachine.Yaml

/-- A place in the stream where a `key` token may still be put. -/
structure Candidate where
  /-- The indentation makes anything but a key wrong here. -/
  required : Bool
  /-- How many tokens stand before it. -/
  number : Nat
  mark : Mark

/-- The state of cutting a text into tokens. -/
structure Lexer where
  rest : List Glyph
  /-- The tokens so far, newest first. -/
  emitted : List Token
  count : Nat
  /-- The column of the innermost open block collection, or -1. -/
  indent : Int
  /-- The columns of the enclosing ones. -/
  outer : List Int
  /-- The candidate of each open flow collection, innermost first, and then that of the block level. -/
  candidates : List (Option Candidate)
  /-- Whether a key may begin here. -/
  keyAllowed : Bool

namespace Lexer

def start (gs : List Glyph) : Lexer :=
  { rest := gs, emitted := [⟨.streamStart, .origin⟩], count := 1, indent := -1, outer := [],
    candidates := [none], keyAllowed := true }

def mark (l : Lexer) : Mark := markOf l.rest

def column (l : Lexer) : Int := l.mark.column

/-- Whether the text stands inside a flow collection. -/
def inFlow (l : Lexer) : Bool := !l.candidates.tail.isEmpty

def emit (kind : TokenKind) (mark : Mark) (l : Lexer) : Lexer :=
  { l with emitted := ⟨kind, mark⟩ :: l.emitted, count := l.count + 1 }

/-- Puts a token in front of all but the first `number` ones. -/
def insertAt (number : Nat) (kind : TokenKind) (mark : Mark) (l : Lexer) : Lexer :=
  { l with
    emitted := l.emitted.take (l.count - number) ++ ⟨kind, mark⟩ :: l.emitted.drop (l.count - number)
    count := l.count + 1 }

/-- The token that `n` characters make here. -/
def punctuate (kind : TokenKind) (n : Nat) (l : Lexer) : Lexer :=
  { l.emit kind l.mark with rest := l.rest.drop n }

/-! ## Candidates for keys -/

def missingColon (c : Candidate) (now : Mark) : Fault :=
  .within .simpleKey c.mark .keyWithoutColon now

/-- A candidate that the text has left behind: its line has ended, or it has grown too long. -/
def isStale (now : Mark) (c : Candidate) : Bool :=
  c.mark.line < now.line || c.mark.index + 1024 < now.index

/-- Gives up the candidates that the text has left behind, none of which may be required. -/
def dropStale (l : Lexer) : Except Fault Lexer :=
  let stale := isStale l.mark
  match l.candidates.findSome? (·.filter fun c => stale c && c.required) with
  | some c => .error (missingColon c l.mark)
  | none => .ok { l with candidates := l.candidates.map (·.filter (!stale ·)) }

/-- The innermost candidate. -/
def candidate? (l : Lexer) : Option Candidate := l.candidates.head?.join

def setCandidate (c : Option Candidate) (l : Lexer) : Lexer :=
  { l with candidates := c :: l.candidates.tail }

/-- Gives up the innermost candidate. -/
def dropCandidate (l : Lexer) : Except Fault Lexer :=
  match l.candidate? with
  | some c => if c.required then .error (missingColon c l.mark) else .ok (l.setCandidate none)
  | none => .ok l

/-- Makes the node that begins here a candidate, where a key may begin. -/
def offerCandidate (l : Lexer) : Except Fault Lexer := do
  if l.keyAllowed then
    let required := !l.inFlow && l.indent == l.column
    return (← l.dropCandidate).setCandidate (some ⟨required, l.count, l.mark⟩)
  else return l

/-! ## Indentation -/

/-- Opens a block collection at a column, if that is deeper than the ones that are open.  The token that
opens it goes in front of all but the first `number` ones. -/
def openBlock (column : Int) (number : Nat) (kind : TokenKind) (mark : Mark) (l : Lexer) : Lexer :=
  if !l.inFlow && l.indent < column then
    { l.insertAt number kind mark with indent := column, outer := l.indent :: l.outer }
  else l

/-- Closes the block collections that are deeper than a column. -/
def closeBlocksFrom (column : Int) (mark : Mark) : List Int → Lexer → Lexer
  | [], l => l
  | i :: outer, l =>
    if column < l.indent then
      closeBlocksFrom column mark outer { l.emit .blockEnd mark with indent := i, outer := outer }
    else l

def closeBlocks (column : Int) (l : Lexer) : Lexer :=
  if l.inFlow then l else closeBlocksFrom column l.mark l.outer l

/-! ## Between tokens -/

/-- Skips blanks, comments and line breaks; a line break outside flow collections allows a key again.
Where a key may begin outside flow collections, tabs are not skipped. -/
def skipBlanksFrom (flow : Bool) (comment keyAllowed : Bool) : List Glyph → Bool × List Glyph
  | [] => (keyAllowed, [])
  | g :: gs =>
    if isBreak g.char then skipBlanksFrom flow false (keyAllowed || !flow) gs
    else if comment && g.char != stop then skipBlanksFrom flow true keyAllowed gs
    else if g.char == '#' then skipBlanksFrom flow true keyAllowed gs
    else if g.char == ' ' || (g.char == '\t' && (flow || !keyAllowed)) ||
        (g.char == byteOrderMark && g.mark.column == 0) then
      skipBlanksFrom flow false keyAllowed gs
    else (keyAllowed, g :: gs)

def skipBlanks (l : Lexer) : Lexer :=
  let (keyAllowed, rest) := skipBlanksFrom l.inFlow false l.keyAllowed l.rest
  { l with keyAllowed, rest }

/-! ## One token -/

/-- The end of the text stands on a line of its own. -/
def breakAtEnd (l : Lexer) : Lexer :=
  let m := l.mark
  { l with rest := [⟨stop, if m.column == 0 then m else ⟨m.line + 1, 0, m.index⟩⟩] }

/-- The end of the text closes all block collections. -/
def lexEnd (l : Lexer) : Except Fault Lexer := do
  let l ← (l.breakAtEnd.closeBlocks (-1)).dropCandidate
  return { l.emit .streamEnd l.mark with keyAllowed := false }

/-- Directives and the rules between documents close all block collections. -/
def leaveDocument (l : Lexer) : Except Fault Lexer := do
  let l ← (l.closeBlocks (-1)).dropCandidate
  return { l with keyAllowed := false }

def lexDirective (l : Lexer) : Except Fault Lexer := do
  let l ← l.leaveDocument
  let (kind, rest) ← readDirective l.rest
  return { l.emit kind l.mark with rest }

def lexRule (kind : TokenKind) (l : Lexer) : Except Fault Lexer := do
  let l ← l.leaveDocument
  return l.punctuate kind 3

def lexFlowStart (kind : TokenKind) (l : Lexer) : Except Fault Lexer := do
  let l ← l.offerCandidate
  return { l.punctuate kind 1 with candidates := none :: l.candidates, keyAllowed := true }

def lexFlowEnd (kind : TokenKind) (l : Lexer) : Except Fault Lexer := do
  let l ← l.dropCandidate
  let candidates := if l.inFlow then l.candidates.tail else l.candidates
  return { l.punctuate kind 1 with candidates, keyAllowed := false }

def lexFlowEntry (l : Lexer) : Except Fault Lexer := do
  let l ← l.dropCandidate
  return { l.punctuate .flowEntry 1 with keyAllowed := true }

def lexBlockEntry (l : Lexer) : Except Fault Lexer := do
  if !l.inFlow && !l.keyAllowed then throw (.bare .entryNotAllowed l.mark)
  let l ← (l.openBlock l.column l.count .blockSequenceStart l.mark).dropCandidate
  return { l.punctuate .blockEntry 1 with keyAllowed := true }

/-- A key that is announced by a question mark. -/
def lexKey (l : Lexer) : Except Fault Lexer := do
  if !l.inFlow && !l.keyAllowed then throw (.bare .keyNotAllowed l.mark)
  let l ← (l.openBlock l.column l.count .blockMappingStart l.mark).dropCandidate
  return { l.punctuate .key 1 with keyAllowed := !l.inFlow }

/-- A colon: the innermost candidate, if there is one, was a key. -/
def lexValue (l : Lexer) : Except Fault Lexer :=
  match l.candidate? with
  | some c =>
    let l := l.insertAt c.number .key c.mark
    let l := (l.openBlock c.mark.column c.number .blockMappingStart c.mark).setCandidate none
    .ok { l.punctuate .value 1 with keyAllowed := false }
  | none =>
    if !l.inFlow && !l.keyAllowed then .error (.bare .valueNotAllowed l.mark)
    else
      let l := l.openBlock l.column l.count .blockMappingStart l.mark
      .ok { l.punctuate .value 1 with keyAllowed := !l.inFlow }

def lexName (construct : Construct) (kind : String → TokenKind) (l : Lexer) :
    Except Fault Lexer := do
  let l ← l.offerCandidate
  let (name, rest) ← readName construct l.rest
  return { l.emit (kind name) l.mark with rest, keyAllowed := false }

def lexTag (l : Lexer) : Except Fault Lexer := do
  let l ← l.offerCandidate
  let (name, rest) ← readTag l.inFlow l.rest
  return { l.emit (.tag name) l.mark with rest, keyAllowed := false }

def lexBlockScalar (l : Lexer) : Except Fault Lexer := do
  let l ← l.dropCandidate
  let (text, rest) ← readBlock l.indent l.rest
  return { l.emit (.scalar .quoted (String.ofList text)) l.mark with rest, keyAllowed := true }

def lexQuoted (l : Lexer) : Except Fault Lexer := do
  let l ← l.offerCandidate
  let (text, rest) ← readQuoted l.rest
  return { l.emit (.scalar .quoted (String.ofList text)) l.mark with rest, keyAllowed := false }

/-- A line break after a plain scalar allows a key again. -/
def lexPlain (l : Lexer) : Except Fault Lexer := do
  let l ← l.offerCandidate
  let ((text, broken), rest) ← readPlain l.inFlow (l.indent + 1) l.rest
  return { l.emit (.scalar .plain (String.ofList text)) l.mark with rest, keyAllowed := broken }

/-- The characters that a plain scalar cannot begin with. -/
def isIndicator (c : Char) : Bool := "-?:,[]\x7b\x7d#&*!|>\x27\"%@\u0060".toList.contains c

/-- Whether a plain scalar begins here. -/
def startsPlain (l : Lexer) : Bool :=
  let c := front l.rest
  let next := charAt l.rest 1
  !(endsWord c || isIndicator c) || (c == '-' && !isSpaceOrTab next) ||
    (!l.inFlow && (c == '?' || c == ':') && !endsWord next)

/-- Reads the token that begins here. -/
def lexToken (l : Lexer) : Except Fault Lexer :=
  let c := front l.rest
  let alone := endsWord (charAt l.rest 1)
  if c == stop then l.lexEnd
  else if l.mark.column == 0 && c == '%' then l.lexDirective
  else if isRule '-' l.rest then l.lexRule .documentStart
  else if isRule '.' l.rest then l.lexRule .documentEnd
  else if c == '[' then l.lexFlowStart .flowSequenceStart
  else if c == '\x7b' then l.lexFlowStart .flowMappingStart
  else if c == ']' then l.lexFlowEnd .flowSequenceEnd
  else if c == '\x7d' then l.lexFlowEnd .flowMappingEnd
  else if c == ',' then l.lexFlowEntry
  else if c == '-' && alone then l.lexBlockEntry
  else if c == '?' && (l.inFlow || alone) then l.lexKey
  else if c == ':' && (l.inFlow || alone) then l.lexValue
  else if c == '*' then l.lexName .reference .reference
  else if c == '&' then l.lexName .anchor .anchor
  else if c == '!' then l.lexTag
  else if (c == '|' || c == '>') && !l.inFlow then l.lexBlockScalar
  else if c == singleQuote || c == doubleQuote then l.lexQuoted
  else if l.startsPlain then l.lexPlain
  else .error (.within .nextToken l.mark .noTokenStart l.mark)

/-- Goes on to the next token and reads it. -/
def step (l : Lexer) : Except Fault Lexer := do
  let l ← l.skipBlanks.dropStale
  let l ← (l.closeBlocks l.column).lexToken
  l.dropStale

/-! ## All tokens -/

/-- How many tokens are final: those before the first candidate. -/
def finalCount (l : Lexer) : Nat :=
  l.candidates.foldl (fun n c => match c with | some c => min n c.number | none => n) l.count

/-- The tokens so far, in order. -/
def tokens (l : Lexer) : List Token := l.emitted.reverse

/-- The final tokens, followed by what went wrong. -/
def brokenBy (fault : Fault) (l : Lexer) : List Token :=
  l.tokens.take l.finalCount ++ [⟨.broken fault, fault.mark⟩]

def isFinished (l : Lexer) : Bool :=
  match l.emitted with
  | ⟨.streamEnd, _⟩ :: _ => true
  | _ => false

/-- One step in a text that breaks off at `cut`, for the reason `fault`.  Four characters must be there
where a token is to begin, and whatever runs up to the cut meets the fault. -/
def stepBefore (cut : Mark) (fault : Fault) (l : Lexer) : Except Fault Lexer :=
  if (l.skipBlanks.rest.drop 4).isEmpty then .error fault
  else match l.step with
    | .ok l => if l.mark == cut then .error fault else .ok l
    | .error other => .error (if other.mark == cut then fault else other)

/-- Reads on to the end with a way to make a step; every token but the last takes at least one glyph, so
`fuel` need not exceed the number of glyphs. -/
def run (step : Lexer → Except Fault Lexer) : Nat → Lexer → List Token
  | 0, l => l.tokens
  | fuel + 1, l =>
    match step l with
    | .error fault => l.brokenBy fault
    | .ok l => if l.isFinished then l.tokens else run step fuel l

end Lexer

/-- The tokens of a text. -/
def tokenize (text : List Char) : List Token :=
  match forbidden? text with
  | none => let gs := layout text; (Lexer.start gs).run Lexer.step (gs.length + 1)
  | some c =>
    let gs := layout (text.take c.noticedAfter)
    let cut := (gs.getLast?.map (·.mark)).getD .origin
    let fault : Fault := .bare (.forbiddenCharacter c.offset) .origin
    (Lexer.start gs).run (Lexer.stepBefore cut fault) (gs.length + 1)

end TapeMachine.Yaml
