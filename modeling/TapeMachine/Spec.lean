import TapeMachine.Machine

/-!
# Specifications

A specification describes a whole machine: its type, which fixes the number of its tapes, its blank and
wildcard, the state in which it starts, the input of its first tape, and its table.
-/

namespace TapeMachine

inductive MachineType where
  | oneTape
  | threeTape
deriving DecidableEq

namespace MachineType

def default : MachineType := .oneTape

def name : MachineType → String
  | .oneTape => "1tape"
  | .threeTape => "3tape"

def ofName? : String → Option MachineType
  | "1tape" => some .oneTape
  | "3tape" => some .threeTape
  | _ => none

def tapes : MachineType → Nat
  | .oneTape => 1
  | .threeTape => 3

theorem ofName?_eq_some_iff {s : String} {t : MachineType} : ofName? s = some t ↔ s = t.name := by
  constructor
  · intro h
    unfold ofName? at h
    split at h <;> cases h <;> rfl
  · rintro rfl
    cases t <;> rfl

end MachineType

structure Spec where
  name : Option String
  machineType : MachineType
  blank : Symbol
  wild : Option Symbol
  start : State
  /-- What the first tape holds at the start. -/
  input : Option String
  table : Table
deriving DecidableEq

namespace Spec

def tapes (s : Spec) : Nat := s.machineType.tapes

def isSingleTape (s : Spec) : Bool := s.machineType == .oneTape

/-- The symbols of the input, of which there are none if no input is given. -/
def inputSymbols (s : Spec) : List Symbol := (s.input.map String.toList).getD []

/-- The tapes at the start: all but the first are blank. -/
def initialTapes (s : Spec) : List Tape :=
  Tape.new s.blank s.inputSymbols :: List.replicate (s.tapes - 1) (Tape.new s.blank [])

def initial (s : Spec) : Config := ⟨s.start, s.initialTapes, 0⟩

def withInput (s : Spec) (input : String) : Spec := { s with input := some input }

/-- What a specification keeps to so that it describes a machine. -/
structure Valid (s : Spec) : Prop where
  kind : match s.table with
    | .single _ => s.machineType = .oneTape
    | .multi _ => s.machineType = .threeTape
  tapes : s.table.tapes = s.tapes
  wildcard : ∀ t, s.table = .multi t → t.wildcard = s.wild
  start : s.start ∈ s.table.states
  table : s.table.Valid

@[simp] theorem length_initialTapes (s : Spec) : s.initialTapes.length = s.tapes := by
  unfold initialTapes tapes
  cases s.machineType <;> rfl

end Spec

end TapeMachine
