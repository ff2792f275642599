import TapeMachine.Yaml.Token.Fold

/-!
# Quoted scalars

Between single quotes a doubled quote stands for one and nothing else is special.  Between double
quotes a backslash starts an escape: a letter for a character, two, four or eight hexadecimal digits
for a code point, or a line break, which is dropped.
-/

namespace TapeMachine.Yaml

def singleQuote : Char := '\x27'

def doubleQuote : Char := '"'

/-- The character that a letter stands for after a backslash. -/
def escapedChar? (c : Char) : Option Char :=
  if c == '0' then some '\x00'
  else if c == 'a' then some '\x07'
  else if c == 'b' then some '\x08'
  else if c == 't' || c == '\t' then some '\t'
  else if c == 'n' then some '\n'
  else if c == 'v' then some '\x0b'
  else if c == 'f' then some '\x0c'
  else if c == 'r' then some '\r'
  else if c == 'e' then some '\x1b'
  else if c == ' ' || c == doubleQuote || c == '/' || c == '\\' then some c
  else if c == 'N' then some '\u0085'
  else if c == '_' then some '\u00a0'
  else if c == 'L' then some '\u2028'
  else if c == 'P' then some '\u2029'
  else none

/-- How many digits follow a letter that announces a code point. -/
def escapedDigits? (c : Char) : Option Nat :=
  if c == 'x' then some 2 else if c == 'u' then some 4 else if c == 'U' then some 8 else none

def hexDigit? (c : Char) : Option Nat :=
  let n := c.toNat
  if 0x30 ≤ n && n ≤ 0x39 then some (n - 0x30)
  else if 0x41 ≤ n && n ≤ 0x46 then some (n - 0x41 + 10)
  else if 0x61 ≤ n && n ≤ 0x66 then some (n - 0x61 + 10)
  else none

/-- The character of a code point, unless it is a surrogate or out of range. -/
def charOfCodePoint? (n : Nat) : Option Char := if n.isValidChar then some (Char.ofNat n) else none

/-- What the reader of a double-quoted scalar expects next. -/
inductive QuotedMode where
  | text
  /-- A backslash has been read. -/
  | escape (backslash : Mark)
  /-- Digits of a code point are awaited; the mark is that of the first. -/
  | digits (first : Mark) (awaited : Nat) (value : Nat)
  /-- The first of two single quotes has been read. -/
  | quotePair

/-- Reads on after the opening quote, with the characters so far (newest first). -/
def quotedFrom (quote : Char) (start : Mark) (text : List Char) (gap : Gap) :
    QuotedMode → List Glyph → Except Fault (List Char × List Glyph)
  | _, [] => .error (.within .quotedScalar start .textEndsInQuotes start)
  | .escape backslash, g :: gs =>
    if isBreak g.char then quotedFrom quote start text (.escapedBreak []) .text gs
    else match escapedChar? g.char with
      | some c => quotedFrom quote start (c :: text) .none .text gs
      | none => match escapedDigits? g.char with
        | some n => quotedFrom quote start text .none (.digits (markOf gs) n 0) gs
        | none => .error (.within .quotedEscape start .escapeUnknown backslash)
  | .digits first awaited value, g :: gs =>
    match hexDigit? g.char with
    | none => .error (.within .quotedEscape start .escapeNotHexadecimal first)
    | some d =>
      if awaited ≤ 1 then
        match charOfCodePoint? (16 * value + d) with
        | some c => quotedFrom quote start (c :: text) .none .text gs
        | none => .error (.within .quotedEscape start .escapeNotCharacter first)
      else quotedFrom quote start text .none (.digits first (awaited - 1) (16 * value + d)) gs
  | .quotePair, g :: gs => quotedFrom quote start (g.char :: text) .none .text gs
  | .text, g :: gs =>
    if g.char == stop then .error (.within .quotedScalar start .textEndsInQuotes g.mark)
    else if isSpaceOrTab g.char then quotedFrom quote start text (gap.addSpace g.char) .text gs
    else if isBreak g.char then quotedFrom quote start text (gap.addBreak g.char) .text gs
    else if isDocumentRule (g :: gs) then
      .error (.within .quotedScalar start .ruleInQuotes g.mark)
    else if g.char == quote then
      if quote == singleQuote && front gs == singleQuote then
        quotedFrom quote start (gap.folded ++ text) .none .quotePair gs
      else .ok ((gap.folded ++ text).reverse, gs)
    else if quote == doubleQuote && g.char == '\\' then
      quotedFrom quote start (gap.folded ++ text) .none (.escape g.mark) gs
    else quotedFrom quote start (g.char :: (gap.folded ++ text)) .none .text gs

/-- Reads the quoted scalar that starts here. -/
def readQuoted (gs : List Glyph) : Except Fault (List Char × List Glyph) :=
  quotedFrom (front gs) (markOf gs) [] .none .text gs.tail

end TapeMachine.Yaml
