import TapeMachine.Proofs.Program.Binary
import TapeMachine.Proofs.Program.Bundled

/-!
# Divisibility by three

The machine for divisibility goes to the right over a binary number, in the state that tells the remainder of
what it has read: a digit more makes twice the number, or one more than that.  On the blank beyond the last
digit it accepts or rejects.  It never writes.
-/

namespace TapeMachine.Program

open Word

namespace Divisibility

def table : SingleTable where
  states := ⟨[
    ("q0", some ⟨[('0', ⟨none, .right, none⟩), ('1', ⟨none, .right, some "q1"⟩),
      (' ', ⟨none, .right, some "accept"⟩)], by decide⟩),
    ("q1", some ⟨[('0', ⟨none, .right, some "q2"⟩), ('1', ⟨none, .right, some "q0"⟩),
      (' ', ⟨none, .right, some "reject"⟩)], by decide⟩),
    ("q2", some ⟨[('0', ⟨none, .right, some "q1"⟩), ('1', ⟨none, .right, none⟩),
      (' ', ⟨none, .right, some "reject"⟩)], by decide⟩),
    ("accept", none),
    ("reject", none)], by decide⟩

/-- What the document says, with its synonyms put in. -/
def specification : Spec where
  name := some "divisible by 3"
  machineType := .oneTape
  blank := ' '
  wild := none
  start := "q0"
  input := some "1001"
  table := .single table

theorem exists_program : ∃ p, byId? "divisible-by-3" = some p ∧ p.spec = specification := by
  have hread : (Spec.parse divisibleByThree).toOption = some specification := by decide +kernel
  exact exists_byId?_of_spec (.tail _ (.tail _ (.tail _ (.head _)))) hread

abbrev control : Control := (Table.single table).control

/-- The state that tells the remainder of a number. -/
def remainderState (n : Nat) : State :=
  match n % 3 with
  | 0 => "q0"
  | 1 => "q1"
  | _ => "q2"

/-- The state for the answer to a number. -/
def answerState (n : Nat) : State := if 3 ∣ n then "accept" else "reject"

theorem exists_get?_digit (n : Nat) (b : Bool) : ∃ next,
    table.get? (remainderState n) (digit b) = some ⟨none, .right, next⟩ ∧
      next.getD (remainderState n) = remainderState (2 * n + b.toNat) := by
  have hdigit : (2 * n + b.toNat) % 3 = (2 * (n % 3) + b.toNat) % 3 := by omega
  have hn : n % 3 = 0 ∨ n % 3 = 1 ∨ n % 3 = 2 := by omega
  unfold remainderState
  rw [hdigit]
  -- The three remainders in turn, each with a zero and with a one.
  rcases hn with h | h | h <;> rw [h] <;> cases b
  · exact ⟨none, by decide, rfl⟩
  · exact ⟨some "q1", by decide, rfl⟩
  · exact ⟨some "q2", by decide, rfl⟩
  · exact ⟨some "q0", by decide, rfl⟩
  · exact ⟨some "q1", by decide, rfl⟩
  · exact ⟨none, by decide, rfl⟩

theorem get?_blank (n : Nat) :
    table.get? (remainderState n) ' ' = some ⟨none, .right, some (answerState n)⟩ := by
  have hn : n % 3 = 0 ∨ n % 3 = 1 ∨ n % 3 = 2 := by omega
  unfold remainderState answerState
  rcases hn with h | h | h
  · rw [if_pos (Nat.dvd_of_mod_eq_zero h), h]
    decide
  · rw [if_neg (by omega), h]
    decide
  · rw [if_neg (by omega), h]
    decide

theorem step_blank (n : Nat) (before : List Symbol) (position : Int) (steps : Nat) :
    control.step ⟨remainderState n, [.rightward ' ' before [] position], steps⟩ =
      .done (.single ⟨none, .right, some (answerState n)⟩)
        ⟨answerState n, [(Tape.rightward ' ' before [] position).right], steps + 1⟩ :=
  SingleTable.step_of_get? (get?_blank n) steps

theorem exists_executes (w : Word) : ∃ t,
    control.Executes (w.length + 1) ⟨"q0", [.new ' ' (digits w)], 0⟩
      ⟨answerState (value w), [t], w.length + 1⟩ ∧
      t.position = w.length + 1 ∧ ∀ i, t.cell i = (Tape.new ' ' (digits w)).cell i := by
  -- Over the word, and from the blank beyond it one more to the right.
  have hscan := SingleTable.executes_word remainderState (fun n b => 2 * n + b.toNat) exists_get?_digit
    w 0 ' ' [] 0 0
  rw [← Tape.new_eq_rightward, List.append_nil, Int.zero_add, Nat.zero_add] at hscan
  have hlast := step_blank (value w) (digits w).reverse w.length w.length
  refine ⟨_, hscan.append (.single hlast), ?_, fun i => ?_⟩
  · exact Tape.position_right _
  · have hcells := Tape.cell_rightward_append ' ' (digits w) [] [] 0 i
    rw [List.append_nil, List.append_nil, length_digits, Int.zero_add, ← Tape.new_eq_rightward] at hcells
    exact (Tape.cell_right _ i).trans hcells

theorem isHalting_answerState (n : Nat) : (Table.single table).isHalting (answerState n) = true := by
  unfold answerState
  by_cases h : 3 ∣ n
  · rw [if_pos h]
    decide
  · rw [if_neg h]
    decide

end Divisibility

/-- The bundled machine accepts the binary numbers that three divides and rejects the others.  It takes one step
more than the word has digits: with a smaller budget it is still running, and with any other budget it has
halted, one cell beyond the blank after the word, and the tape is as it was. -/
theorem divisibleByThree_halts :
    ∃ p, byId? "divisible-by-3" = some p ∧ ∀ w : Word, ∃ last start t,
      (∀ m < w.length + 1,
        (p.spec.table.control.perform (p.spec.withInput (String.ofList (digits w))).initial (.run m)).1 =
          .stepLimit m) ∧
      (∀ m, w.length + 1 ≤ m →
        p.spec.table.control.perform (p.spec.withInput (String.ofList (digits w))).initial (.run m) =
          (.halted (w.length + 1), last)) ∧
      last.state = (if 3 ∣ value w then "accept" else "reject") ∧ last.tapes = [t] ∧
      t.position = w.length + 1 ∧
      (p.spec.withInput (String.ofList (digits w))).initial.tapes = [start] ∧ ∀ i, t.cell i = start.cell i := by
  obtain ⟨p, hp, hspec⟩ := Divisibility.exists_program
  refine ⟨p, hp, fun w => ?_⟩
  obtain ⟨t, hexecutes, hposition, hcells⟩ := Divisibility.exists_executes w
  obtain ⟨hbefore, hafter⟩ := hexecutes.perform_run
    (Table.isHalted_of_isHalting (Divisibility.isHalting_answerState (value w)))
  have htable : Divisibility.specification.table.control = Divisibility.control := rfl
  have hinitial : (Divisibility.specification.withInput (String.ofList (digits w))).initial =
      ⟨"q0", [.new ' ' (digits w)], 0⟩ := initial_withInput rfl _
  rw [hspec, hinitial, htable]
  refine ⟨⟨Divisibility.answerState (value w), [t], w.length + 1⟩, .new ' ' (digits w), t, fun m hm => ?_,
    fun m hm => ?_, rfl, rfl, hposition, rfl, hcells⟩
  · rw [hbefore m hm, Nat.zero_add]
  · rw [hafter m hm, Nat.zero_add]

/-- Twelve is accepted and five is rejected. -/
theorem divisibleByThree_halts_twelve_five :
    ∃ p twelve five, byId? "divisible-by-3" = some p ∧
      (p.spec.table.control.perform (p.spec.withInput "1100").initial (.run 4)).1 = .stepLimit 4 ∧
      p.spec.table.control.perform (p.spec.withInput "1100").initial (.run 9) = (.halted 5, twelve) ∧
      p.spec.table.control.perform (p.spec.withInput "101").initial (.run 4) = (.halted 4, five) ∧
      twelve.state = "accept" ∧ five.state = "reject" := by
  obtain ⟨p, hp, hall⟩ := divisibleByThree_halts
  obtain ⟨twelve, -, -, hbefore, hafter, htwelve, -⟩ := hall [true, true, false, false]
  obtain ⟨five, -, -, -, hrejected, hfive, -⟩ := hall [true, false, true]
  exact ⟨p, twelve, five, hp, hbefore 4 (by decide), hafter 9 (by decide), hrejected 4 (by decide), htwelve, hfive⟩

end TapeMachine.Program
