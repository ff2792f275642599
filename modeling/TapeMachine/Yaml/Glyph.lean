/-!
# Marks and glyphs

A document is read as a list of glyphs: its characters, each with the place where it stands.  Every
spelling of a line break but the two separators of Unicode becomes a single line feed, and a stop
glyph, which no text can contain, follows the last character.  A reader of the list therefore never
counts lines itself and never meets the empty list.
-/

namespace TapeMachine.Yaml

/-- A place in a text: its line and column, and the number of octets before it, all from zero. -/
structure Mark where
  line : Nat
  column : Nat
  index : Nat
deriving DecidableEq, Inhabited

namespace Mark

def origin : Mark := ⟨0, 0, 0⟩

/-- The place after a character of `width` octets. -/
def right (m : Mark) (width : Nat) : Mark := ⟨m.line, m.column + 1, m.index + width⟩

/-- The start of the line after a break of `width` octets. -/
def below (m : Mark) (width : Nat) : Mark := ⟨m.line + 1, 0, m.index + width⟩

/-- The same line and column. -/
def samePlace (m n : Mark) : Bool := m.line == n.line && m.column == n.column

def isOrigin (m : Mark) : Bool := m.line == 0 && m.column == 0

/-- Lines and columns are counted from one for the reader of a message. -/
def describe (m : Mark) : String := s!"line {m.line + 1} column {m.column + 1}"

/-- ` at line … column …`, or nothing at the very start of the text. -/
def suffix (m : Mark) : String := if m.isOrigin then "" else " at " ++ m.describe

end Mark

structure Glyph where
  char : Char
  mark : Mark
deriving DecidableEq, Inhabited

/-! ## Classes of characters -/

/-- The character of the stop glyph. -/
def stop : Char := '\x00'

def byteOrderMark : Char := '\uFEFF'

def isSpaceOrTab (c : Char) : Bool := c == ' ' || c == '\t'

/-- The break characters that a laid out text holds. -/
def isBreak (c : Char) : Bool := c == '\n' || c == '\u2028' || c == '\u2029'

/-- A break or the end of the text. -/
def endsLine (c : Char) : Bool := isBreak c || c == stop

/-- A space, a tab, a break or the end of the text. -/
def endsWord (c : Char) : Bool := isSpaceOrTab c || endsLine c

/-- The characters of anchors, directive names and tag handles. -/
def isNameChar (c : Char) : Bool := c.isAlphanum || c == '_' || c == '-'

/-- The characters that a document may hold at all. -/
def isAllowed (c : Char) : Bool :=
  let n := c.toNat
  n == 0x09 || n == 0x0A || n == 0x0D || n == 0x85 || (0x20 ≤ n && n ≤ 0x7E) ||
    (0xA0 ≤ n && n ≤ 0xD7FF) || (0xE000 ≤ n && n ≤ 0xFFFD) || 0x10000 ≤ n

/-- A character that is not allowed: how many octets stand before it, and how many characters of the
text are taken in before it is noticed. -/
structure Forbidden where
  offset : Nat
  noticedAfter : Nat
deriving DecidableEq

/-- How many octets of a text are taken in at a time, at most. -/
def pieceSize : Nat := 16384

/-- The first character that is not allowed, after `count` characters of `offset` octets.  The piece that
is being taken in began after `start` characters and holds `used` octets so far; no character is split
between two pieces. -/
def forbiddenFrom? (count start offset used : Nat) : List Char → Option Forbidden
  | [] => none
  | c :: cs =>
    let fits := decide (used + c.utf8Size ≤ pieceSize)
    let start := if fits then start else count
    let used := if fits then used else 0
    if isAllowed c then
      forbiddenFrom? (count + 1) start (offset + c.utf8Size) (used + c.utf8Size) cs
    else some ⟨offset, start⟩

/-- The first character of a text that is not allowed.  The piece that holds it is never looked at, but
the pieces before it are. -/
def forbidden? (cs : List Char) : Option Forbidden := forbiddenFrom? 0 0 0 0 cs

/-! ## Laying out a text -/

def layoutFrom : Mark → List Char → List Glyph
  | m, [] => [⟨stop, m⟩]
  | m, '\r' :: '\n' :: cs => ⟨'\n', m⟩ :: layoutFrom (m.below 2) cs
  | m, c :: cs =>
    if c == '\n' || c == '\r' || c == '\u0085' then ⟨'\n', m⟩ :: layoutFrom (m.below c.utf8Size) cs
    else if isBreak c then ⟨c, m⟩ :: layoutFrom (m.below c.utf8Size) cs
    else ⟨c, m⟩ :: layoutFrom (m.right c.utf8Size) cs

/-- The glyphs of a text. -/
def layout (cs : List Char) : List Glyph := layoutFrom .origin cs

/-! ## Looking ahead -/

/-- The character `n` places ahead. -/
def charAt (gs : List Glyph) (n : Nat) : Char := (gs[n]?.map (·.char)).getD stop

/-- The character that comes next. -/
def front (gs : List Glyph) : Char := charAt gs 0

/-- Where the rest of the text starts. -/
def markOf (gs : List Glyph) : Mark := (gs.head?.map (·.mark)).getD .origin

/-- Whether a line of the text starts here with three times `c`, standing alone. -/
def isRule (c : Char) (gs : List Glyph) : Bool :=
  (markOf gs).column == 0 && charAt gs 0 == c && charAt gs 1 == c && charAt gs 2 == c &&
    endsWord (charAt gs 3)

/-- Whether a line starts here with `---` or `...`. -/
def isDocumentRule (gs : List Glyph) : Bool := isRule '-' gs || isRule '.' gs

def takeChars (p : Char → Bool) (gs : List Glyph) : List Char :=
  (gs.takeWhile (p ·.char)).map (·.char)

def dropChars (p : Char → Bool) (gs : List Glyph) : List Glyph := gs.dropWhile (p ·.char)

/-- Past the break that comes next, if one does. -/
def dropBreak (gs : List Glyph) : List Glyph := if isBreak (front gs) then gs.tail else gs

end TapeMachine.Yaml
