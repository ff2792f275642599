import TapeMachine.Text.Space

/-!
# Symbols and directions

A cell of a tape holds one character.  A head goes one cell to the left or to the right, or stays.
-/

namespace TapeMachine

abbrev Symbol := Char

namespace Symbol

/-- What white space is shown as. -/
def openBox : Symbol := '\u2423'

/-- The symbol as a label shows it. -/
def visible (c : Symbol) : Symbol := if Text.isWhiteSpace c then openBox else c

theorem visible_of_isWhiteSpace {c : Symbol} (h : Text.isWhiteSpace c = true) :
    visible c = openBox := if_pos h

theorem visible_of_not_isWhiteSpace {c : Symbol} (h : ¬ Text.isWhiteSpace c = true) :
    visible c = c := if_neg h

end Symbol

inductive Direction where
  | left
  | right
  | stay
deriving DecidableEq

namespace Direction

def letter : Direction → Char
  | .left => 'L'
  | .right => 'R'
  | .stay => 'S'

def ofLetter? : Char → Option Direction
  | 'L' => some .left
  | 'R' => some .right
  | 'S' => some .stay
  | _ => none

theorem ofLetter?_eq_some_iff {c : Char} {d : Direction} : ofLetter? c = some d ↔ c = d.letter := by
  constructor
  · intro h
    unfold ofLetter? at h
    split at h <;> cases h <;> rfl
  · rintro rfl
    cases d <;> rfl

/-- How far the head goes to the right. -/
def offset : Direction → Int
  | .left => -1
  | .right => 1
  | .stay => 0

end Direction

end TapeMachine
