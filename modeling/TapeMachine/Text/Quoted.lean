import TapeMachine.Text.Shown

/-!
# Quoted text

A text in quotes, for messages: the quote and the backslash are written after a backslash, some
controls by a letter, and every other character that would not show by its code point.
-/

namespace TapeMachine.Text

/-- The digits of a code point between braces. -/
def codePointEscape (c : Char) : List Char :=
  '\\' :: 'u' :: '\x7b' :: (Nat.toDigits 16 c.toNat ++ ['\x7d'])

/-- A character between two quotes. -/
def escapeChar (quote c : Char) : List Char :=
  if c == '\x00' then ['\\', '0']
  else if c == '\t' then ['\\', 't']
  else if c == '\r' then ['\\', 'r']
  else if c == '\n' then ['\\', 'n']
  else if c == '\\' || c == quote then ['\\', c]
  else if isShown c then [c]
  else codePointEscape c

def quoteWith (quote : Char) (cs : List Char) : String :=
  String.ofList (quote :: (cs.flatMap (escapeChar quote) ++ [quote]))

/-- A text in double quotes. -/
def quoted (s : String) : String := quoteWith '"' s.toList

/-- A character in single quotes. -/
def quotedChar (c : Char) : String := quoteWith '\x27' [c]

/-- Characters in single quotes, between brackets. -/
def quotedChars (cs : List Char) : String := "[" ++ ", ".intercalate (cs.map quotedChar) ++ "]"

end TapeMachine.Text
