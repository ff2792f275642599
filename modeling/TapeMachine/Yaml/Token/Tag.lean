import TapeMachine.Yaml.Token.Quoted

/-!
# Names, tags and directives

Anchors and aliases have names of word characters.  A tag is either written out between angle
brackets or as a handle and a suffix, in which an octet may be escaped by a percent sign and two
digits.  A directive line fixes the version of the language or gives a handle its prefix.
-/

namespace TapeMachine.Yaml

/-! ## Names -/

/-- The characters that may follow the name of an anchor or alias. -/
def endsName (c : Char) : Bool :=
  endsWord c || c == '?' || c == ':' || c == ',' || c == ']' || c == '\x7d' || c == '%' || c == '@' ||
    c == '\u0060'

/-- Reads the name after the indicator of an anchor or alias. -/
def readName (construct : Construct) (gs : List Glyph) : Except Fault (String × List Glyph) :=
  let name := takeChars isNameChar gs.tail
  let rest := dropChars isNameChar gs.tail
  if name.isEmpty || !endsName (front rest) then
    .error (.within construct (markOf gs) .nameMissing (markOf rest))
  else .ok (String.ofList name, rest)

/-! ## Tags -/

/-- Where a tag is read, for the messages. -/
structure TagContext where
  directive : Bool
  start : Mark

namespace TagContext

def addressFault {α : Type} (ctx : TagContext) (problem : Problem) (gs : List Glyph) : Except Fault (α × List Glyph) :=
  .error (.within (if ctx.directive then .tagDirectiveAddress else .tagAddress) ctx.start problem
    (markOf gs))

end TagContext

/-- The characters of an address; those of flow collections only where they cannot be mistaken. -/
def isAddressChar (flowToo : Bool) (c : Char) : Bool :=
  isNameChar c || ";/?:@&=+$.%!~*\x27()".toList.contains c ||
    (flowToo && (c == ',' || c == '[' || c == ']'))

/-- How many octets of a character follow its first one. -/
def octetsAfter? (octet : Nat) : Option Nat :=
  if octet < 0x80 then some 0
  else if octet / 0x20 == 0x06 then some 1
  else if octet / 0x10 == 0x0E then some 2
  else if octet / 0x08 == 0x1E then some 3
  else none

/-- Reads the characters of an address, `owed` octets being needed to finish a character.  The octets
so far come with the newest first. -/
def addressFrom (ctx : TagContext) (flowToo : Bool) (octets : List Nat) (owed : Nat) :
    List Glyph → Except Fault (List Nat × List Glyph)
  | [] => .ok (octets.reverse, [])
  | g :: gs =>
    if owed > 0 || (isAddressChar flowToo g.char && g.char == '%') then
      match gs with
      | high :: low :: rest =>
        match hexDigit? high.char, hexDigit? low.char with
        | some h, some l =>
          let octet := 16 * h + l
          if g.char != '%' then ctx.addressFault .octetEscapeMissing (g :: gs)
          else if owed > 0 then
            if octet / 0x40 == 0x02 then addressFrom ctx flowToo (octet :: octets) (owed - 1) rest
            else ctx.addressFault .trailingOctet (g :: gs)
          else match octetsAfter? octet with
            | some n => addressFrom ctx flowToo (octet :: octets) n rest
            | none => ctx.addressFault .leadingOctet (g :: gs)
        | _, _ => ctx.addressFault .octetEscapeMissing (g :: gs)
      | _ => ctx.addressFault .octetEscapeMissing (g :: gs)
    else if isAddressChar flowToo g.char then
      addressFrom ctx flowToo (g.char.toNat :: octets) 0 gs
    else .ok (octets.reverse, g :: gs)

/-- Reads an address that follows the characters of `head`, whose first one is an indicator.  Only
both together must not be empty.  What follows an octet that is zero is dropped. -/
def readAddress (ctx : TagContext) (flowToo : Bool) (head : List Char) (gs : List Glyph) :
    Except Fault (List Nat × List Glyph) := do
  let (octets, rest) ← addressFrom ctx flowToo [] 0 gs
  if head.isEmpty && octets.isEmpty then ctx.addressFault .tagMissing rest
  else return ((head.tail.map Char.toNat ++ octets).takeWhile (· != 0), rest)

/-- Reads a handle: a bang, and perhaps a name with a second bang. -/
def readHandle (ctx : TagContext) (gs : List Glyph) : Except Fault (List Char × List Glyph) :=
  if front gs != '!' then
    .error (.within (if ctx.directive then .tagDirectiveHandle else .tag) ctx.start .bangMissing
      (markOf gs))
  else
    let name := takeChars isNameChar gs.tail
    let rest := dropChars isNameChar gs.tail
    if front rest == '!' then .ok ('!' :: (name ++ ['!']), rest.tail)
    else if ctx.directive && !name.isEmpty then
      .error (.within .tagDirectiveHandleEnd ctx.start .bangMissing (markOf rest))
    else .ok ('!' :: name, rest)

/-- A tag written out in full. -/
def readVerbatimTag (ctx : TagContext) (gs : List Glyph) : Except Fault (TagName × List Glyph) := do
  let (octets, rest) ← readAddress ctx true [] (gs.drop 2)
  if front rest == '>' then return (⟨"", octets⟩, rest.tail)
  else .error (.within .tag ctx.start .verbatimTagOpen (markOf rest))

/-- A tag written with a handle.  What looks like a handle without its second bang belongs to the
suffix of the handle `!`; the lone bang is a tag of its own. -/
def readShorthandTag (ctx : TagContext) (gs : List Glyph) : Except Fault (TagName × List Glyph) := do
  let (handle, rest) ← readHandle ctx gs
  if handle.length > 1 && handle.getLast? == some '!' then
    let (octets, rest) ← readAddress ctx false [] rest
    return (⟨String.ofList handle, octets⟩, rest)
  else
    let (octets, rest) ← readAddress ctx false handle rest
    return (if octets.isEmpty then ⟨"", ['!'.toNat]⟩ else ⟨"!", octets⟩, rest)

/-- Reads the tag that starts here. -/
def readTag (flow : Bool) (gs : List Glyph) : Except Fault (TagName × List Glyph) := do
  let ctx : TagContext := ⟨false, markOf gs⟩
  let (name, rest) ← if charAt gs 1 == '<' then readVerbatimTag ctx gs else readShorthandTag ctx gs
  if endsWord (front rest) || (flow && front rest == ',') then return (name, rest)
  else .error (.within .tag ctx.start .spaceOrBreakMissing (markOf rest))

/-! ## Directives -/

/-- A number of at most nine digits. -/
def readVersionNumber (start : Mark) (gs : List Glyph) : Except Fault (Nat × List Glyph) :=
  let digits := takeChars Char.isDigit gs
  if digits.isEmpty then .error (.within .versionDirective start .versionMissing (markOf gs))
  else if digits.length > 9 then
    .error (.within .versionDirective start .versionTooLong (markOf (gs.drop 9)))
  else .ok (digits.foldl (fun n d => 10 * n + (d.toNat - '0'.toNat)) 0, dropChars Char.isDigit gs)

def readVersion (start : Mark) (gs : List Glyph) : Except Fault (TokenKind × List Glyph) := do
  let (major, rest) ← readVersionNumber start (dropChars isSpaceOrTab gs)
  if front rest != '.' then
    .error (.within .versionDirective start .versionPointMissing (markOf rest))
  else
    let (minor, rest) ← readVersionNumber start rest.tail
    return (.versionDirective major minor, rest)

def readTagPrefix (start : Mark) (gs : List Glyph) : Except Fault (TokenKind × List Glyph) := do
  let ctx : TagContext := ⟨true, start⟩
  let (handle, rest) ← readHandle ctx (dropChars isSpaceOrTab gs)
  if !isSpaceOrTab (front rest) then
    .error (.within .tagDirective start .spaceMissing (markOf rest))
  else
    let (octets, rest) ← readAddress ctx true [] (dropChars isSpaceOrTab rest)
    if endsWord (front rest) then return (.tagDirective (String.ofList handle) octets, rest)
    else .error (.within .tagDirective start .spaceOrBreakMissing (markOf rest))

/-- Skips the rest of a directive's line, which may hold a comment only. -/
def finishDirective (start : Mark) (gs : List Glyph) : Except Fault (List Glyph) :=
  let gs := dropChars isSpaceOrTab gs
  let gs := if front gs == '#' then dropChars (!endsLine ·) gs else gs
  if endsLine (front gs) then .ok (dropBreak gs)
  else .error (.within .directive start .lineNotEnded (markOf gs))

/-- Reads the directive whose percent sign comes next. -/
def readDirective (gs : List Glyph) : Except Fault (TokenKind × List Glyph) := do
  let start := markOf gs
  let name := takeChars isNameChar gs.tail
  let rest := dropChars isNameChar gs.tail
  if name.isEmpty then .error (.within .directive start .directiveNameMissing (markOf rest))
  else if !endsWord (front rest) then
    .error (.within .directive start .directiveNameCharacter (markOf rest))
  else
    let (kind, rest) ←
      if name == "YAML".toList then readVersion start rest
      else if name == "TAG".toList then readTagPrefix start rest
      else .error (.within .directive start .directiveUnknown (markOf rest))
    return (kind, ← finishDirective start rest)

end TapeMachine.Yaml
