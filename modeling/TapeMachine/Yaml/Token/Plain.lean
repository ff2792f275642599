import TapeMachine.Yaml.Token.Fold

/-!
# Plain scalars

A scalar without quotes runs until a comment, a rule between documents, a colon before a blank, the
punctuation of an enclosing flow collection, or, outside flow collections, a line that is indented no
deeper than the enclosing collection.
-/

namespace TapeMachine.Yaml

/-- Where a plain scalar stands: inside a flow collection or not, and the least column of its lines. -/
structure PlainContext where
  flow : Bool
  indent : Int
  start : Mark

/-- The outcome of reading a plain scalar: its characters, and whether a line break followed them. -/
abbrev PlainText := List Char × Bool

def isFlowPunctuation (c : Char) : Bool :=
  c == ',' || c == '[' || c == ']' || c == '\x7b' || c == '\x7d'

/-- Whether a word cannot begin here, so that the scalar ended before the gap. -/
def endsPlainBeforeWord (ctx : PlainContext) (gap : Gap) (gs : List Glyph) : Bool :=
  !gap.isNone &&
    ((!ctx.flow && ((markOf gs).column : Int) < ctx.indent) || isDocumentRule gs || front gs == '#')

/-- Whether a word ends here. -/
def endsPlainWord (ctx : PlainContext) (gs : List Glyph) : Bool :=
  (front gs == ':' && endsWord (charAt gs 1)) || (ctx.flow && isFlowPunctuation (front gs))

/-- A colon pressed against the punctuation that follows it, in a flow collection. -/
def isPressedColon (ctx : PlainContext) (gs : List Glyph) : Bool :=
  ctx.flow && front gs == ':' && (charAt gs 1 == '?' || isFlowPunctuation (charAt gs 1))

/-- Reads on, with the characters so far (newest first) and the blanks after them. -/
def plainFrom (ctx : PlainContext) (text : List Char) (gap : Gap) :
    List Glyph → Except Fault (PlainText × List Glyph)
  | [] => .ok ((text.reverse, gap.isBroken), [])
  | g :: gs =>
    if isSpaceOrTab g.char then
      if gap.isBroken && (g.mark.column : Int) < ctx.indent && g.char == '\t' then
        .error (.within .plainScalar ctx.start .tabBeforePlain g.mark)
      else plainFrom ctx text (gap.addSpace g.char) gs
    else if isBreak g.char then plainFrom ctx text (gap.addBreak g.char) gs
    else if g.char == stop || endsPlainBeforeWord ctx gap (g :: gs) then
      .ok ((text.reverse, gap.isBroken), g :: gs)
    else if isPressedColon ctx (g :: gs) then
      .error (.within .plainScalar ctx.start .colonInPlain g.mark)
    else if endsPlainWord ctx (g :: gs) then .ok ((text.reverse, gap.isBroken), g :: gs)
    else plainFrom ctx (g.char :: (gap.folded ++ text)) .none gs

/-- Reads the plain scalar that starts here. -/
def readPlain (flow : Bool) (indent : Int) (gs : List Glyph) : Except Fault (PlainText × List Glyph) :=
  plainFrom ⟨flow, indent, markOf gs⟩ [] .none gs

end TapeMachine.Yaml
