import TapeMachine.Proofs.Machine.Execution
import TapeMachine.Proofs.Program.Bundled

/-!
# Zeros and ones without end

The machine for writing without end goes to the right over a blank tape and goes round its four states: in the
first it writes a zero, in the third a one, and in the others nothing.  So the number of its steps tells its
state, where it stands, and what it has left behind.
-/

namespace TapeMachine.Program

namespace Repetition

def table : SingleTable where
  states := ⟨[
    ("b", some ⟨[(' ', ⟨some '0', .right, some "c"⟩)], by decide⟩),
    ("c", some ⟨[(' ', ⟨none, .right, some "e"⟩)], by decide⟩),
    ("e", some ⟨[(' ', ⟨some '1', .right, some "f"⟩)], by decide⟩),
    ("f", some ⟨[(' ', ⟨none, .right, some "b"⟩)], by decide⟩)], by decide⟩

/-- What the document says. -/
def specification : Spec where
  name := some "repeat 0 1"
  machineType := .oneTape
  blank := ' '
  wild := none
  start := "b"
  input := none
  table := .single table

theorem exists_program : ∃ p, byId? "repeat01" = some p ∧ p.spec = specification := by
  have hread : (Spec.parse repeatZeroOne).toOption = some specification := by decide +kernel
  exact exists_byId?_of_spec (.tail _ (.tail _ (.tail _ (.tail _ (.head _))))) hread

abbrev control : Control := (Table.single table).control

/-- The state after `n` steps. -/
def stateAfter (n : Nat) : State :=
  match n % 4 with
  | 0 => "b"
  | 1 => "c"
  | 2 => "e"
  | _ => "f"

/-- What is written on a cell. -/
def writtenAt (i : Int) : Option Symbol := if i % 4 = 0 then some '0' else if i % 4 = 2 then some '1' else none

theorem getD_writtenAt (i : Int) :
    (writtenAt i).getD ' ' = if i % 4 = 0 then '0' else if i % 4 = 2 then '1' else ' ' := by
  unfold writtenAt
  split_ifs <;> rfl

theorem get?_stateAfter (n : Nat) :
    table.get? (stateAfter n) ' ' = some ⟨writtenAt n, .right, some (stateAfter (n + 1))⟩ := by
  have hn : n % 4 = 0 ∨ n % 4 = 1 ∨ n % 4 = 2 ∨ n % 4 = 3 := by omega
  have hnext : (n + 1) % 4 = (n % 4 + 1) % 4 := by omega
  have hcell : (n : Int) % 4 = (n % 4 : Nat) := by omega
  unfold stateAfter writtenAt
  rw [hnext, hcell]
  rcases hn with h | h | h | h <;> rw [h] <;> decide

/-- The tape after `n` steps: the cells behind the head have what is written on them, and all others are blank. -/
structure Trail (n : Nat) (t : Tape) : Prop where
  position : t.position = n
  cell : ∀ i, t.cell i = if 0 ≤ i ∧ i < n then (writtenAt i).getD ' ' else ' '

theorem trail_new : Trail 0 (.new ' ' []) where
  position := rfl
  cell i := by
    have hnone : ¬ (0 ≤ i ∧ i < (0 : Nat)) := by omega
    rw [if_neg hnone, Tape.cell_new, List.getD_nil, ite_self]

namespace Trail

variable {n : Nat} {t : Tape}

theorem read (h : Trail n t) : t.read = ' ' := by
  have hnone : ¬ (0 ≤ (n : Int) ∧ (n : Int) < n) := by omega
  rw [← Tape.cell_position, h.position, h.cell, if_neg hnone]

theorem step (h : Trail n t) : Trail (n + 1) (Action.apply ⟨writtenAt n, .right⟩ t) where
  position := by
    rw [Action.position_apply, h.position]
    rfl
  cell i := by
    by_cases hi : i = t.position
    · have hnew : 0 ≤ (n : Int) ∧ (n : Int) < (n + 1 : Nat) := by omega
      rw [hi, Action.cell_apply_position, h.read, h.position, if_pos hnew]
    · have hrange : (0 ≤ i ∧ i < (n + 1 : Nat)) ↔ (0 ≤ i ∧ i < n) := by
        rw [h.position] at hi
        omega
      rw [Action.cell_apply_of_ne _ hi, h.cell]
      simp only [hrange]

end Trail

theorem step_of_trail {n : Nat} {t : Tape} (h : Trail n t) (steps : Nat) :
    control.step ⟨stateAfter n, [t], steps⟩ = .done (.single ⟨writtenAt n, .right, some (stateAfter (n + 1))⟩)
      ⟨stateAfter (n + 1), [Action.apply ⟨writtenAt n, .right⟩ t], steps + 1⟩ := by
  have hget : table.get? (stateAfter n) t.read = some ⟨writtenAt n, .right, some (stateAfter (n + 1))⟩ := by
    rw [h.read]
    exact get?_stateAfter n
  exact SingleTable.step_of_get? hget steps

theorem exists_executes (n : Nat) :
    ∃ t, control.Executes n ⟨"b", [.new ' ' []], 0⟩ ⟨stateAfter n, [t], n⟩ ∧ Trail n t := by
  induction n with
  | zero => exact ⟨_, .refl _ _, trail_new⟩
  | succ n ih =>
    obtain ⟨t, hexecutes, ht⟩ := ih
    exact ⟨_, hexecutes.append (.single (step_of_trail ht n)), ht.step⟩

end Repetition

/-- The bundled machine never halts: a run has spent its budget, whatever that is, the head is as many cells to
the right of the start, and behind it stand zeros and ones in turn with a blank after each of them, and
nothing else. -/
theorem repeatZeroOne_runs :
    ∃ p, byId? "repeat01" = some p ∧ p.spec.input = none ∧ ∀ n : Nat, ∃ last t,
      p.spec.table.control.perform p.spec.initial (.run n) = (.stepLimit n, last) ∧ last.tapes = [t] ∧
      t.position = n ∧ ∀ i, t.cell i =
        if 0 ≤ i ∧ i < n then (if i % 4 = 0 then '0' else if i % 4 = 2 then '1' else p.spec.blank)
        else p.spec.blank := by
  obtain ⟨p, hp, hspec⟩ := Repetition.exists_program
  refine ⟨p, hp, by rw [hspec]; rfl, fun n => ?_⟩
  obtain ⟨t, hexecutes, ht⟩ := Repetition.exists_executes n
  have hrun := hexecutes.perform_run_of_done (Repetition.step_of_trail ht n)
  rw [Nat.zero_add] at hrun
  have hinitial : Repetition.specification.initial = ⟨"b", [.new ' ' []], 0⟩ := rfl
  rw [hspec, hinitial]
  refine ⟨⟨Repetition.stateAfter n, [t], n⟩, t, hrun, rfl, ht.position, fun i => ?_⟩
  rw [ht.cell, Repetition.getD_writtenAt]
  rfl

end TapeMachine.Program
