import TapeMachine.Tape

/-!
# Addressing by machine words

A cell is asked for by a signed word of 64 bits, counted from the head or from the cell on which the head
started.  The cells on either side of the head lie in a vector whose end is at the head, so that a cell is
found by its distance from the end, which is an unsigned word and is compared with the length before it is
subtracted.  The distance from the head to a place is a difference of two signed words, which need not be a
word itself; there is no cell to answer with then.
-/

namespace TapeMachine

/-- The distance of a word from zero; there is an unsigned word also for that of the least one. -/
def magnitude (k : Int64) : UInt64 := .ofNat k.toInt.natAbs

/-- The difference of two words.  It fails where it is no word. -/
def difference? (a b : Int64) : Option Int64 :=
  if a.toBitVec.ssubOverflow b.toBitVec then none else some (a - b)

/-- The cell `n` places before the end of a vector. -/
def fromEnd? (cells : List Symbol) (n : UInt64) : Option Symbol :=
  if n.toNat ≤ cells.length then cells[cells.length - n.toNat]? else none

namespace Tape

/-- The cell `offset` places to the right of the head. -/
def readAt (t : Tape) (offset : Int64) : Symbol :=
  let cell? :=
    if 0 ≤ offset then fromEnd? (t.head :: t.after).reverse (magnitude offset + 1)
    else fromEnd? t.before.reverse (magnitude offset)
  cell?.getD t.blank

/-- The cell at a place counted from the cell on which the head started.  It fails where the distance from
the head is no word. -/
def cellAt? (t : Tape) (index : Int64) : Option Symbol :=
  (difference? index (.ofInt t.position)).map t.readAt

end Tape

end TapeMachine
