import TapeMachine.Symbol

/-!
# Tapes

A tape has no end in either direction, and all but finitely many of its cells hold the blank.  What is
kept are the cells around the head as far as they have been visited, and where the head stands, counted
from the cell on which it started.  `Tape.cell` is the tape as a function on all integers; every
operation is described by what it does to that function and to the position of the head.
-/

namespace TapeMachine

structure Tape where
  blank : Symbol
  /-- The visited cells to the left of the head, the nearest first. -/
  before : List Symbol
  head : Symbol
  /-- The visited cells to the right of the head, the nearest first. -/
  after : List Symbol
  position : Int
deriving DecidableEq

/-- The visited cells around the head, both halves from left to right. -/
structure Snapshot where
  before : List Symbol
  /-- The cell under the head and those to the right of it. -/
  fromHead : List Symbol
deriving DecidableEq

namespace Tape

/-- A tape with the head on the first symbol of the input. -/
def new (blank : Symbol) : List Symbol → Tape
  | [] => ⟨blank, [], blank, [], 0⟩
  | c :: cs => ⟨blank, [], c, cs, 0⟩

/-! ## Reading -/

def read (t : Tape) : Symbol := t.head

/-- The cell `k` places to the right of the head. -/
def readOffset (t : Tape) : Int → Symbol
  | .ofNat n => (t.head :: t.after).getD n t.blank
  | .negSucc n => t.before.getD n t.blank

/-- The cells from `first` to `last` places to the right of the head. -/
def readRange (t : Tape) (first last : Int) : List Symbol :=
  (List.range (last - first + 1).toNat).map fun (i : Nat) => t.readOffset (first + i)

/-- The cell at a place counted from the cell on which the head started. -/
def cell (t : Tape) (i : Int) : Symbol := t.readOffset (i - t.position)

/-- The visited cells. -/
def contents (t : Tape) : List Symbol := t.before.reverse ++ t.head :: t.after

def snapshot (t : Tape) : Snapshot := ⟨t.before.reverse, t.head :: t.after⟩

/-- The visited cells, with the one under the head in brackets. -/
def display (t : Tape) : String :=
  String.ofList (t.before.reverse ++ '[' :: t.head :: ']' :: t.after)

/-! ## Writing and moving -/

def write (t : Tape) (c : Symbol) : Tape := { t with head := c }

def left (t : Tape) : Tape :=
  match t.before with
  | [] => ⟨t.blank, [], t.blank, t.head :: t.after, t.position - 1⟩
  | c :: cs => ⟨t.blank, cs, c, t.head :: t.after, t.position - 1⟩

def right (t : Tape) : Tape :=
  match t.after with
  | [] => ⟨t.blank, t.head :: t.before, t.blank, [], t.position + 1⟩
  | c :: cs => ⟨t.blank, t.head :: t.before, c, cs, t.position + 1⟩

def move (t : Tape) : Direction → Tape
  | .left => t.left
  | .right => t.right
  | .stay => t

/-! ## The tape as a function -/

@[simp] theorem readOffset_zero (t : Tape) : t.readOffset 0 = t.read := rfl

@[simp] theorem cell_position (t : Tape) : t.cell t.position = t.read := by
  rw [cell, Int.sub_self, readOffset_zero]

theorem readOffset_eq_cell (t : Tape) (k : Int) : t.readOffset k = t.cell (t.position + k) := by
  rw [cell]
  congr 1
  omega

@[simp] theorem position_new (blank : Symbol) (input : List Symbol) : (new blank input).position = 0 := by
  cases input <;> rfl

theorem readOffset_new (blank : Symbol) (input : List Symbol) (n : Nat) :
    (new blank input).readOffset n = input.getD n blank := by
  cases input with
  | nil => cases n <;> rfl
  | cons c cs => rfl

theorem readOffset_new_negSucc (blank : Symbol) (input : List Symbol) (n : Nat) :
    (new blank input).readOffset (Int.negSucc n) = blank := by
  cases input <;> rfl

/-- A new tape holds its input from the start on, and the blank elsewhere. -/
theorem cell_new (blank : Symbol) (input : List Symbol) (i : Int) :
    (new blank input).cell i = if 0 ≤ i then input.getD i.toNat blank else blank := by
  rw [cell, position_new, Int.sub_zero]
  match i with
  | .ofNat n => exact readOffset_new blank input n
  | .negSucc n => exact readOffset_new_negSucc blank input n

@[simp] theorem position_write (t : Tape) (c : Symbol) : (t.write c).position = t.position := rfl

@[simp] theorem read_write (t : Tape) (c : Symbol) : (t.write c).read = c := rfl

theorem readOffset_write_of_ne {t : Tape} {c : Symbol} {k : Int} (h : k ≠ 0) :
    (t.write c).readOffset k = t.readOffset k := by
  match k with
  | .ofNat 0 => exact absurd rfl h
  | .ofNat (n + 1) => rfl
  | .negSucc n => rfl

theorem cell_write (t : Tape) (c : Symbol) (i : Int) :
    (t.write c).cell i = if i = t.position then c else t.cell i := by
  split
  · rename_i h; subst h; exact cell_position (t.write c)
  · exact readOffset_write_of_ne (by simpa [Int.sub_eq_zero] using ‹_›)

@[simp] theorem position_left (t : Tape) : t.left.position = t.position - 1 := by
  unfold left; split <;> rfl

@[simp] theorem position_right (t : Tape) : t.right.position = t.position + 1 := by
  unfold right; split <;> rfl

theorem readOffset_left (t : Tape) (k : Int) : t.left.readOffset k = t.readOffset (k - 1) := by
  obtain ⟨blank, before, head, after, position⟩ := t
  match k with
  | .ofNat 0 => cases before <;> rfl
  | .ofNat (n + 1) =>
    have h : ((n + 1 : Nat) : Int) - 1 = (n : Nat) := by omega
    rw [show Int.ofNat (n + 1) - 1 = Int.ofNat n from h]
    cases before <;> rfl
  | .negSucc n =>
    have h : (Int.negSucc n - 1) = Int.negSucc (n + 1) := by omega
    rw [h]
    cases before <;> simp [left, readOffset]

theorem readOffset_right (t : Tape) (k : Int) : t.right.readOffset k = t.readOffset (k + 1) := by
  obtain ⟨blank, before, head, after, position⟩ := t
  match k with
  | .ofNat n =>
    rw [show Int.ofNat n + 1 = Int.ofNat (n + 1) from rfl]
    cases after with
    | nil => cases n <;> simp [right, readOffset]
    | cons c cs => simp [right, readOffset]
  | .negSucc 0 => cases after <;> rfl
  | .negSucc (n + 1) =>
    have h : (Int.negSucc (n + 1) + 1) = Int.negSucc n := by omega
    rw [h]
    cases after <;> simp [right, readOffset]

@[simp] theorem cell_left (t : Tape) (i : Int) : t.left.cell i = t.cell i := by
  rw [cell, cell, readOffset_left, position_left]
  congr 1
  omega

@[simp] theorem cell_right (t : Tape) (i : Int) : t.right.cell i = t.cell i := by
  rw [cell, cell, readOffset_right, position_right]
  congr 1
  omega

theorem position_move (t : Tape) (d : Direction) : (t.move d).position = t.position + d.offset := by
  cases d
  · exact position_left t
  · exact position_right t
  · exact (Int.add_zero _).symm

@[simp] theorem cell_move (t : Tape) (d : Direction) (i : Int) : (t.move d).cell i = t.cell i := by
  cases d
  · exact cell_left t i
  · exact cell_right t i
  · rfl

end Tape

end TapeMachine
