import TapeMachine.Symbol

/-!
# Instructions

What a machine does in one step: on each tape it may write a symbol and then moves the head, and at the
end it may go to another state.  An instruction for one tape says this for that tape; an instruction for
several tapes says it for all of them at once.
-/

namespace TapeMachine

abbrev State := String

structure SingleInstruction where
  write : Option Symbol
  move : Direction
  /-- The machine stays in its state where none is named. -/
  next : Option State
deriving DecidableEq

/-- Where they are given, the writes and the moves are meant to be one for each tape. -/
structure MultiInstruction where
  write : Option (List (Option Symbol))
  moves : Option (List Direction)
  next : Option State
deriving DecidableEq

namespace MultiInstruction

/-- What is written on a tape, if anything is. -/
def writeFor (i : MultiInstruction) (tape : Nat) : Option Symbol :=
  (i.write.bind (·[tape]?)).join

/-- A head that is given no move stays. -/
def moveFor (i : MultiInstruction) (tape : Nat) : Direction :=
  (i.moves.bind (·[tape]?)).getD .stay

/-- Whether the writes and the moves that are given are for `n` tapes. -/
def fits (i : MultiInstruction) (n : Nat) : Bool :=
  i.write.all (·.length == n) && i.moves.all (·.length == n)

theorem fits_iff {i : MultiInstruction} {n : Nat} :
    i.fits n = true ↔
      (∀ ws, i.write = some ws → ws.length = n) ∧ ∀ ds, i.moves = some ds → ds.length = n := by
  simp only [fits, Bool.and_eq_true, Option.all_eq_true, beq_iff_eq]

theorem writeFor_eq_some_iff {i : MultiInstruction} {tape : Nat} {c : Symbol} :
    i.writeFor tape = some c ↔ ∃ ws, i.write = some ws ∧ ws[tape]? = some (some c) := by
  simp only [writeFor, Option.join_eq_some_iff, Option.bind_eq_some_iff]

end MultiInstruction

inductive Instruction where
  | single (i : SingleInstruction)
  | multi (i : MultiInstruction)
deriving DecidableEq

/-- What an instruction does on one tape. -/
structure Action where
  write : Option Symbol
  move : Direction
deriving DecidableEq

namespace Instruction

def next : Instruction → Option State
  | .single i => i.next
  | .multi i => i.next

def writeFor : Instruction → Nat → Option Symbol
  | .single i, _ => i.write
  | .multi i, tape => i.writeFor tape

def moveFor : Instruction → Nat → Direction
  | .single i, _ => i.move
  | .multi i, tape => i.moveFor tape

/-- Whether the instruction can be executed on `n` tapes. -/
def fits : Instruction → Nat → Bool
  | .single _, n => n == 1
  | .multi i, n => i.fits n

/-- The state after the instruction. -/
def target (i : Instruction) (state : State) : State := i.next.getD state

def actionFor (i : Instruction) (tape : Nat) : Action := ⟨i.writeFor tape, i.moveFor tape⟩

end Instruction

/-! ## Patterns -/

/-- One symbol for each tape. -/
abbrev Pattern := List Symbol

namespace Pattern

/-- Whether each symbol of the pattern is the wildcard or the symbol read on its tape. -/
def reads (wildcard : Option Symbol) (p : Pattern) (symbols : List Symbol) : Bool :=
  p.length == symbols.length &&
    (p.zip symbols).all fun (expected, read) => some expected == wildcard || expected == read

@[simp] theorem reads_nil_nil (w : Option Symbol) : reads w [] [] = true := rfl

@[simp] theorem reads_cons_cons (w : Option Symbol) (c x : Symbol) (p : Pattern) (xs : List Symbol) :
    reads w (c :: p) (x :: xs) = ((some c == w || c == x) && reads w p xs) := by
  have h : (List.length (c :: p) == List.length (x :: xs)) = (p.length == xs.length) := by
    rw [Bool.eq_iff_iff]
    simp
  simp only [reads, h, List.zip_cons_cons, List.all_cons]
  exact Bool.and_left_comm _ _ _

theorem length_eq_of_reads {w : Option Symbol} {p : Pattern} {xs : List Symbol}
    (h : reads w p xs = true) : p.length = xs.length := by
  simp only [reads, Bool.and_eq_true, beq_iff_eq] at h
  exact h.1

theorem reads_iff {w : Option Symbol} {p : Pattern} {xs : List Symbol} :
    reads w p xs = true ↔
      p.length = xs.length ∧ ∀ j < p.length, p[j]? = w ∨ p[j]? = xs[j]? := by
  induction p generalizing xs with
  | nil => cases xs <;> simp [reads]
  | cons c p ih =>
    cases xs with
    | nil => simp [reads]
    | cons x xs =>
      rw [reads_cons_cons, Bool.and_eq_true, ih, List.length_cons, List.length_cons,
        Nat.forall_lt_succ_left]
      simp only [Bool.or_eq_true, beq_iff_eq, List.getElem?_cons_zero, Option.some.injEq,
        List.getElem?_cons_succ, Nat.add_right_cancel_iff]
      exact and_left_comm

theorem reads_none_iff {p : Pattern} {xs : List Symbol} : reads none p xs = true ↔ p = xs := by
  induction p generalizing xs with
  | nil => cases xs <;> simp [reads]
  | cons c p ih =>
    cases xs with
    | nil => simp [reads]
    | cons x xs => rw [reads_cons_cons]; simp [ih]

end Pattern

end TapeMachine
