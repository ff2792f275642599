import TapeMachine.Yaml.Token.Fold

/-!
# Block scalars

A bar or an angle bracket announces a scalar of whole lines, indented deeper than their surroundings.
The header may fix the indentation and say what becomes of the last line breaks.  After a bar lines
stay as they are; after an angle bracket a line break between two lines that do not start with a blank
becomes a space.
-/

namespace TapeMachine.Yaml

/-- What becomes of the line breaks after the last line. -/
inductive Chomping where
  | strip
  | clip
  | keep
deriving DecidableEq

structure BlockHeader where
  literal : Bool
  chomping : Chomping
  /-- The indentation, relative to the enclosing collection. -/
  increment : Option Nat

/-- A construct starts at `start`, inside a collection that is indented by `parent`. -/
structure BlockContext where
  parent : Int
  start : Mark

def chomping? (c : Char) : Option Chomping :=
  if c == '+' then some .keep else if c == '-' then some .strip else none

def blockFault {α : Type} (ctx : BlockContext) (problem : Problem) (gs : List Glyph) : Except Fault (α × List Glyph) :=
  .error (.within .blockScalar ctx.start problem (markOf gs))

/-! ## The header -/

/-- One digit, not zero, if a digit comes next. -/
def readIncrement (ctx : BlockContext) (gs : List Glyph) : Except Fault (Option Nat × List Glyph) :=
  if (front gs).isDigit then
    if front gs == '0' then blockFault ctx .indentationZero gs
    else .ok (some ((front gs).toNat - '0'.toNat), gs.tail)
  else .ok (none, gs)

def readChomping (gs : List Glyph) : Option Chomping × List Glyph :=
  match chomping? (front gs) with
  | some c => (some c, gs.tail)
  | none => (none, gs)

/-- Skips to the end of the line, over blanks and a comment, and over its break. -/
def finishHeader (ctx : BlockContext) (gs : List Glyph) : Except Fault (List Glyph) :=
  let gs := dropChars isSpaceOrTab gs
  let gs := if front gs == '#' then dropChars (!endsLine ·) gs else gs
  if endsLine (front gs) then .ok (dropBreak gs)
  else .error (.within .blockScalar ctx.start .lineNotEnded (markOf gs))

/-- Reads the header; the two indicators come in either order. -/
def readBlockHeader (ctx : BlockContext) (gs : List Glyph) : Except Fault (BlockHeader × List Glyph) := do
  let literal := front gs == '|'
  let (before, gs) := readChomping gs.tail
  let (increment, gs) ← readIncrement ctx gs
  let (after, gs) :=
    if before.isNone && increment.isSome then readChomping gs else (none, gs)
  let gs ← finishHeader ctx gs
  return (⟨literal, (before.or after).getD .clip, increment⟩, gs)

/-! ## The lines -/

/-- Indentation and empty lines before a line: the breaks (newest first) and the widest column met.
`limit` is the indentation of the scalar, if it is known. -/
def indentationFrom (ctx : BlockContext) (limit : Option Nat) (widest : Nat) (breaks : List Char) :
    List Glyph → Except Fault ((Nat × List Char) × List Glyph)
  | [] => .ok ((widest, breaks), [])
  | g :: gs =>
    let inside := limit.all (g.mark.column < ·)
    if inside && g.char == ' ' then indentationFrom ctx limit widest breaks gs
    else
      let widest := max widest g.mark.column
      if inside && g.char == '\t' then blockFault ctx .tabInIndentation (g :: gs)
      else if isBreak g.char then indentationFrom ctx limit widest (g.char :: breaks) gs
      else .ok ((widest, breaks), g :: gs)

/-- The indentation of the scalar: as the header says, else that of its first line, but always deeper
than the enclosing collection. -/
def blockIndent (ctx : BlockContext) (limit : Option Nat) (widest : Nat) : Nat :=
  limit.getD (max widest (max (ctx.parent + 1).toNat 1))

/-- The state between two lines: the text so far and the breaks since, each with the newest first, and
whether the last line started with a blank. -/
structure BlockText where
  text : List Char
  lineBreak : List Char
  emptyLines : List Char
  startedBlank : Bool

/-- The break before a line that starts, or does not start, with a blank. -/
def joinedBreak (literal : Bool) (t : BlockText) (startsBlank : Bool) : List Char :=
  if !literal && t.lineBreak == ['\n'] && !t.startedBlank && !startsBlank then
    if t.emptyLines.isEmpty then [' '] else []
  else t.lineBreak

/-- Reads the lines that are indented by `indent`; `fuel` bounds their number. -/
def blockLines (ctx : BlockContext) (header : BlockHeader) (indent : Nat) :
    Nat → BlockText → List Glyph → Except Fault (BlockText × List Glyph)
  | 0, t, gs => .ok (t, gs)
  | fuel + 1, t, gs =>
    if (markOf gs).column == indent && front gs != stop then do
      let startsBlank := isSpaceOrTab (front gs)
      let before := t.emptyLines ++ (joinedBreak header.literal t startsBlank ++ t.text)
      let line := takeChars (!endsLine ·) gs
      let rest := dropChars (!endsLine ·) gs
      let lineBreak := if isBreak (front rest) then [front rest] else []
      let ((_, emptyLines), rest) ← indentationFrom ctx (some indent) 0 [] (dropBreak rest)
      blockLines ctx header indent fuel
        ⟨line.reverse ++ before, lineBreak, emptyLines, startsBlank⟩ rest
    else .ok (t, gs)

/-- The text of the scalar, once its last line is known. -/
def BlockText.chomped (t : BlockText) : Chomping → List Char
  | .strip => t.text.reverse
  | .clip => (t.lineBreak ++ t.text).reverse
  | .keep => (t.emptyLines ++ (t.lineBreak ++ t.text)).reverse

/-- Reads the block scalar that starts here, in a collection that is indented by `parent`. -/
def readBlock (parent : Int) (gs : List Glyph) : Except Fault (List Char × List Glyph) := do
  let ctx : BlockContext := ⟨parent, markOf gs⟩
  let (header, rest) ← readBlockHeader ctx gs
  let limit := header.increment.map ((max parent 0).toNat + ·)
  let ((widest, emptyLines), rest) ← indentationFrom ctx limit 0 [] rest
  let (t, rest) ←
    blockLines ctx header (blockIndent ctx limit widest) rest.length ⟨[], [], emptyLines, false⟩ rest
  return (t.chomped header.chomping, rest)

end TapeMachine.Yaml
