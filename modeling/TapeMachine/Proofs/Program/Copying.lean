import TapeMachine.Proofs.Machine.Execution
import TapeMachine.Proofs.Machine.Invariant
import TapeMachine.Proofs.Program.Bundled

/-!
# Copying ones

The machine for copying goes to the right over the ones of its first tape and writes as many on its second.
Beyond the last one both heads turn round, and go back until they are on the blank before the first one, from
where they go to the start.  The third tape is left alone.
-/

namespace TapeMachine.Program

namespace Copying

def table : MultiTable where
  tapes := 3
  wildcard := some '*'
  states := ⟨[
    ("copy", some [
      ⟨['1', '*', '*'], ⟨some [some '1', some '1', none], some [.right, .right, .stay], none⟩⟩,
      ⟨['_', '*', '*'], ⟨none, some [.left, .left, .stay], some "rewind"⟩⟩]),
    ("rewind", some [
      ⟨['1', '*', '*'], ⟨none, some [.left, .left, .stay], none⟩⟩,
      ⟨['_', '*', '*'], ⟨none, some [.right, .right, .stay], some "done"⟩⟩]),
    ("done", none)], by decide⟩

/-- What the document says. -/
def specification : Spec where
  name := some "copy (3 tapes)"
  machineType := .threeTape
  blank := '_'
  wild := some '*'
  start := "copy"
  input := some "111"
  table := .multi table

theorem exists_program : ∃ p, byId? "copy-3tape" = some p ∧ p.spec = specification := by
  have hread : (Spec.parse copyThreeTapes).toOption = some specification := by decide +kernel
  exact exists_byId?_of_spec (.tail _ (.tail _ (.head _))) hread

abbrev control : Control := (Table.multi table).control

/-! ## Tapes of ones -/

/-- A tape with `n` ones from the start on and the blank elsewhere, and the head at `place`. -/
structure Ones (n : Nat) (place : Int) (t : Tape) : Prop where
  position : t.position = place
  cell : ∀ i, t.cell i = if 0 ≤ i ∧ i < n then '1' else '_'

theorem ones_new (n : Nat) : Ones n 0 (.new '_' (.replicate n '1')) where
  position := Tape.position_new '_' _
  cell i := by
    rw [Tape.cell_new, List.getD_eq_getElem?_getD, List.getElem?_replicate]
    by_cases hi : 0 ≤ i ∧ i < n
    · have hn : i.toNat < n := by omega
      rw [if_pos hi, if_pos hi.1, if_pos hn]
      rfl
    · rw [if_neg hi, ite_eq_right_iff]
      intro hstart
      have hn : ¬ i.toNat < n := by omega
      rw [if_neg hn]
      rfl

namespace Ones

variable {n k : Nat} {place : Int} {t : Tape}

theorem read (h : Ones n place t) : t.read = if 0 ≤ place ∧ place < n then '1' else '_' := by
  rw [← Tape.cell_position, h.position, h.cell]

theorem move (h : Ones n place t) {d : Direction} {target : Int} (htarget : place + d.offset = target) :
    Ones n target (t.move d) where
  position := by rw [Tape.position_move, h.position, htarget]
  cell i := by rw [Tape.cell_move, h.cell]

theorem write (h : Ones n k t) (hk : k ≤ n) : Ones (max n (k + 1)) k (t.write '1') where
  position := h.position
  cell i := by
    rw [Tape.cell_write, h.position, h.cell]
    by_cases hi : i = k
    · have hone : 0 ≤ i ∧ i < (max n (k + 1) : Nat) := by omega
      rw [if_pos hi, if_pos hone]
    · have hrange : (0 ≤ i ∧ i < (max n (k + 1) : Nat)) ↔ (0 ≤ i ∧ i < n) := by omega
      rw [if_neg hi]
      simp only [hrange]

end Ones

/-! ## Steps -/

variable {first second : Tape} (third : Tape) (steps : Nat)

theorem step_of_read {state : State} {c : Symbol} {i : MultiInstruction} (hread : first.read = c)
    (hfind : ∀ x y, table.find? state [c, x, y] = some ⟨[c, '*', '*'], i⟩) (hfits : i.fits 3 = true) :
    control.step ⟨state, [first, second, third], steps⟩ =
      .done (.multi i) ((Instruction.multi i).execute ⟨state, [first, second, third], steps⟩) := by
  have hrule : table.find? state ([first, second, third].map Tape.read) = some ⟨[c, '*', '*'], i⟩ := by
    rw [← hfind second.read third.read, ← hread]
    rfl
  exact MultiTable.step_of_find? hrule hfits steps

theorem step_copy (h : first.read = '1') :
    control.step ⟨"copy", [first, second, third], steps⟩ =
      .done (.multi ⟨some [some '1', some '1', none], some [.right, .right, .stay], none⟩)
        ⟨"copy", [(first.write '1').move .right, (second.write '1').move .right, third], steps + 1⟩ :=
  step_of_read third steps h (fun _ _ => rfl) rfl

theorem step_turn (h : first.read = '_') :
    control.step ⟨"copy", [first, second, third], steps⟩ =
      .done (.multi ⟨none, some [.left, .left, .stay], some "rewind"⟩)
        ⟨"rewind", [first.move .left, second.move .left, third], steps + 1⟩ :=
  step_of_read third steps h (fun _ _ => rfl) rfl

theorem step_rewind (h : first.read = '1') :
    control.step ⟨"rewind", [first, second, third], steps⟩ =
      .done (.multi ⟨none, some [.left, .left, .stay], none⟩)
        ⟨"rewind", [first.move .left, second.move .left, third], steps + 1⟩ :=
  step_of_read third steps h (fun _ _ => rfl) rfl

theorem step_last (h : first.read = '_') :
    control.step ⟨"rewind", [first, second, third], steps⟩ =
      .done (.multi ⟨none, some [.right, .right, .stay], some "done"⟩)
        ⟨"done", [first.move .right, second.move .right, third], steps + 1⟩ :=
  step_of_read third steps h (fun _ _ => rfl) rfl

/-! ## The whole run -/

/-- The machine at the start, with `n` ones. -/
def initial (n : Nat) : Config := ⟨"copy", [.new '_' (.replicate n '1'), .new '_' [], .new '_' []], 0⟩

/-- After `k` steps `k` ones have been copied, and both heads are behind them. -/
theorem exists_copied {n k : Nat} (hk : k ≤ n) : ∃ first second,
    control.Executes k (initial n) ⟨"copy", [first, second, .new '_' []], k⟩ ∧
      Ones n k first ∧ Ones k k second := by
  induction k with
  | zero => exact ⟨_, _, .refl _ _, ones_new n, ones_new 0⟩
  | succ k ih =>
    obtain ⟨first, second, hexecutes, hfirst, hsecond⟩ := ih (by omega)
    have hread : first.read = '1' := by rw [hfirst.read, if_pos (by omega)]
    have hfirst' := hfirst.write (by omega)
    have hsecond' := hsecond.write le_rfl
    rw [Nat.max_eq_left hk] at hfirst'
    rw [Nat.max_eq_right (Nat.le_succ k)] at hsecond'
    exact ⟨_, _, hexecutes.append (.single (step_copy _ k hread)), hfirst'.move rfl, hsecond'.move rfl⟩

/-- After `k` steps back both heads are `k` cells before the last one. -/
theorem exists_rewound {n k : Nat} (hk : k ≤ n) : ∃ first second,
    control.Executes (n + 1 + k) (initial n) ⟨"rewind", [first, second, .new '_' []], n + 1 + k⟩ ∧
      Ones n (n - 1 - k) first ∧ Ones n (n - 1 - k) second := by
  induction k with
  | zero =>
    obtain ⟨first, second, hexecutes, hfirst, hsecond⟩ := exists_copied (le_refl n)
    have hread : first.read = '_' := by rw [hfirst.read, if_neg (by omega)]
    have hplace : (n : Int) + Direction.left.offset = n - 1 - (0 : Nat) := by
      rw [Direction.offset]
      omega
    exact ⟨_, _, hexecutes.append (.single (step_turn _ n hread)), hfirst.move hplace, hsecond.move hplace⟩
  | succ k ih =>
    obtain ⟨first, second, hexecutes, hfirst, hsecond⟩ := ih (by omega)
    have hread : first.read = '1' := by rw [hfirst.read, if_pos (by omega)]
    have hplace : (n : Int) - 1 - k + Direction.left.offset = n - 1 - (k + 1 : Nat) := by
      rw [Direction.offset]
      omega
    exact ⟨_, _, hexecutes.append (.single (step_rewind _ _ hread)), hfirst.move hplace, hsecond.move hplace⟩

theorem exists_executes (n : Nat) : ∃ first second,
    control.Executes (2 * n + 2) (initial n) ⟨"done", [first, second, .new '_' []], 2 * n + 2⟩ ∧
      Ones n 0 first ∧ Ones n 0 second := by
  -- The last step is from the blank before the first one to the start.
  obtain ⟨first, second, hexecutes, hfirst, hsecond⟩ := exists_rewound (le_refl n)
  have hread : first.read = '_' := by rw [hfirst.read, if_neg (by omega)]
  have hplace : (n : Int) - 1 - n + Direction.right.offset = 0 := by
    rw [Direction.offset]
    omega
  have hall := hexecutes.append (.single (step_last _ _ hread))
  have hsteps : n + 1 + n + 1 = 2 * n + 2 := by omega
  rw [hsteps] at hall
  exact ⟨_, _, hall, hfirst.move hplace, hsecond.move hplace⟩

theorem actionFor_third : ∀ state ∈ (Table.multi table).states, ∀ r ∈ (Table.multi table).transitions state,
    r.instruction.actionFor 2 = ⟨none, .stay⟩ := by
  decide

end Copying

/-- The bundled machine copies any number of ones from the first tape to the second.  It takes two steps for
each of them and two more: with a smaller budget it is still running, and with any other budget it has halted,
with all heads at the start.  The third tape is blank, and as it was, at all times. -/
theorem copyThreeTapes_halts :
    ∃ p, byId? "copy-3tape" = some p ∧ ∀ n : Nat, ∃ last first second third,
      (∀ m < 2 * n + 2,
        (p.spec.table.control.perform
          (p.spec.withInput (String.ofList (.replicate n '1'))).initial (.run m)).1 = .stepLimit m) ∧
      (∀ m, 2 * n + 2 ≤ m →
        p.spec.table.control.perform (p.spec.withInput (String.ofList (.replicate n '1'))).initial (.run m) =
          (.halted (2 * n + 2), last)) ∧
      last.state = "done" ∧ last.tapes = [first, second, third] ∧
      first.position = 0 ∧ second.position = 0 ∧ third.position = 0 ∧
      (∀ i, first.cell i = if 0 ≤ i ∧ i < n then '1' else p.spec.blank) ∧
      (∀ i, second.cell i = if 0 ≤ i ∧ i < n then '1' else p.spec.blank) ∧
      (∀ i, third.cell i = p.spec.blank) ∧
      ∀ m, (p.spec.table.control.perform
        (p.spec.withInput (String.ofList (.replicate n '1'))).initial (.run m)).2.tapes[2]? = some third := by
  obtain ⟨p, hp, hspec⟩ := Copying.exists_program
  refine ⟨p, hp, fun n => ?_⟩
  obtain ⟨first, second, hexecutes, hfirst, hsecond⟩ := Copying.exists_executes n
  have hhalting : (Table.multi Copying.table).isHalting "done" = true := by decide
  obtain ⟨hbefore, hafter⟩ := hexecutes.perform_run (Table.isHalted_of_isHalting hhalting)
  have htable : Copying.specification.table.control = Copying.control := rfl
  have hinitial : (Copying.specification.withInput (String.ofList (.replicate n '1'))).initial =
      Copying.initial n := initial_withInput_eq _ _
  have hsteps : (Copying.initial n).steps = 0 := rfl
  have hthird : Copying.Ones 0 0 (.new '_' []) := Copying.ones_new 0
  rw [hspec, hinitial, htable]
  refine ⟨⟨"done", [first, second, .new '_' []], 2 * n + 2⟩, first, second, .new '_' [], fun m hm => ?_,
    fun m hm => ?_, rfl, rfl, hfirst.position, hsecond.position, hthird.position, hfirst.cell, hsecond.cell,
    fun i => ?_, fun m => ?_⟩
  · rw [hbefore m hm, hsteps, Nat.zero_add]
  · rw [hafter m hm, hsteps, Nat.zero_add]
  · rw [hthird.cell, if_neg (by omega)]
    rfl
  · exact Table.getElem?_tapes_run Copying.actionFor_third (Copying.initial n) m

theorem copyThreeTapes_halts_two :
    ∃ p last first second third, byId? "copy-3tape" = some p ∧
      (p.spec.table.control.perform (p.spec.withInput "11").initial (.run 5)).1 = .stepLimit 5 ∧
      p.spec.table.control.perform (p.spec.withInput "11").initial (.run 6) = (.halted 6, last) ∧
      last.state = "done" ∧ last.tapes = [first, second, third] ∧
      second.position = 0 ∧ second.cell 1 = '1' ∧ second.cell 2 = p.spec.blank := by
  obtain ⟨p, hp, hall⟩ := copyThreeTapes_halts
  obtain ⟨last, first, second, third, hbefore, hafter, hstate, htapes, -, hposition, -, -, hcells, -, -⟩ := hall 2
  exact ⟨p, last, first, second, third, hp, hbefore 5 (by decide), hafter 6 (by decide), hstate, htapes, hposition,
    hcells 1, hcells 2⟩

end TapeMachine.Program
