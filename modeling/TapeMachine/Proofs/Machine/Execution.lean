import TapeMachine.Proofs.Machine.Misfit

/-!
# Executions

That a machine executes so many steps from one configuration to another is shown piece by piece, and what a
run with any budget answers follows from it: a run that ends before has spent its budget, and one that need
not end before has halted.
-/

namespace TapeMachine

namespace Control

variable {r : Control} {c mid last : Config} {j k n : Nat}

namespace Executes

theorem refl (r : Control) (c : Config) : r.Executes 0 c c := executes_zero_iff.2 rfl

theorem cons {i : Instruction} {next : Config} (h : r.step c = .done i next) (hrest : r.Executes k next last) :
    r.Executes (k + 1) c last := executes_succ_iff.2 ⟨i, next, h, hrest⟩

theorem single {i : Instruction} (h : r.step c = .done i last) : r.Executes 1 c last := cons h (refl r last)

theorem append (h₁ : r.Executes j c mid) (h₂ : r.Executes k mid last) : r.Executes (j + k) c last := by
  induction j generalizing c with
  | zero =>
    obtain rfl := executes_zero_iff.1 h₁
    rw [Nat.zero_add]
    exact h₂
  | succ j ih =>
    obtain ⟨i, next, hstep, hrest⟩ := executes_succ_iff.1 h₁
    rw [Nat.add_right_comm]
    exact cons hstep (ih hrest)

theorem steps (h : r.Executes k c last) : last.steps = c.steps + k := by
  induction k generalizing c with
  | zero => rw [executes_zero_iff.1 h, Nat.add_zero]
  | succ k ih =>
    obtain ⟨i, next, hstep, hrest⟩ := executes_succ_iff.1 h
    obtain ⟨-, -, rfl⟩ := step_eq_done_iff.1 hstep
    rw [ih hrest, Instruction.steps_execute]
    omega

/-- A run that gets beyond the steps goes on from where they lead. -/
theorem run_add (h : r.Executes k c last) (n : Nat) : r.run (k + n) c = r.run n last := by
  induction k generalizing c with
  | zero => rw [executes_zero_iff.1 h, Nat.zero_add]
  | succ k ih =>
    obtain ⟨i, next, hstep, hrest⟩ := executes_succ_iff.1 h
    rw [Nat.add_right_comm, run_succ_of_done hstep, ih hrest]

/-- A run that does not get to the end of the steps has spent its budget on some of them. -/
theorem run_of_lt (h : r.Executes k c last) (hn : n < k) :
    ∃ mid, r.run n c = (.stepLimit, mid) ∧ r.Executes n c mid := by
  induction n generalizing c k with
  | zero =>
    obtain ⟨k, rfl⟩ := Nat.exists_eq_add_of_lt hn
    rw [Nat.zero_add] at h
    obtain ⟨i, next, hstep, -⟩ := executes_succ_iff.1 h
    have hgoes : ¬ r.isHalted c = true := by
      rw [← step_eq_halted_iff, hstep]
      exact Step.noConfusion
    exact ⟨c, by rw [run_zero, if_neg hgoes], refl r c⟩
  | succ n ih =>
    obtain ⟨k, rfl⟩ := Nat.exists_eq_add_of_lt hn
    obtain ⟨i, next, hstep, hrest⟩ := executes_succ_iff.1 h
    obtain ⟨mid, hrun, hmid⟩ := ih hrest (by omega)
    exact ⟨mid, (run_succ_of_done hstep n).trans hrun, cons hstep hmid⟩

theorem perform_run (h : r.Executes k c last) (hhalted : r.isHalted last = true) :
    (∀ n < k, (r.perform c (.run n)).1 = .stepLimit (c.steps + n)) ∧
      ∀ n, k ≤ n → r.perform c (.run n) = (.halted (c.steps + k), last) := by
  constructor
  · intro n hn
    obtain ⟨mid, hrun, hmid⟩ := h.run_of_lt hn
    rw [perform, hrun, ← hmid.steps]
  · intro n hn
    obtain ⟨m, rfl⟩ := Nat.exists_eq_add_of_le hn
    rw [perform, h.run_add, run_of_isHalted hhalted, ← h.steps]

theorem perform_run_of_done {i : Instruction} {next : Config} (h : r.Executes k c last)
    (hnext : r.step last = .done i next) : r.perform c (.run k) = (.stepLimit (c.steps + k), last) := by
  have hgoes : ¬ r.isHalted last = true := by
    rw [← step_eq_halted_iff, hnext]
    exact Step.noConfusion
  have hrun : r.run k c = (.stepLimit, last) := by
    have hall := h.run_add 0
    rw [Nat.add_zero, run_zero, if_neg hgoes] at hall
    exact hall
  rw [perform, hrun, ← h.steps]

end Executes

end Control

/-! ## Halting states -/

namespace Table

variable {t : Table} {c : Config}

theorem transitions_of_isHalting {state : State} (h : t.isHalting state = true) : t.transitions state = [] := by
  cases t with
  | single t =>
    have hget : t.states.get? state = some none := beq_iff_eq.1 h
    rw [transitions, hget]
    rfl
  | multi t =>
    have hget : t.states.get? state = some none := beq_iff_eq.1 h
    rw [transitions, hget]
    rfl

theorem isHalted_of_isHalting (h : t.isHalting c.state = true) : t.control.isHalted c = true := by
  rw [Control.isHalted, Option.isNone_iff_eq_none, Option.eq_none_iff_forall_ne_some]
  intro i hi
  obtain ⟨r, hr, -⟩ := exists_transition_of_lookup hi
  rw [transitions_of_isHalting h] at hr
  cases hr

end Table

/-! ## One tape -/

namespace SingleTable

variable {t : SingleTable} {state : State} {tape : Tape}

theorem step_of_get? {i : SingleInstruction} (h : t.get? state tape.read = some i) (steps : Nat) :
    (Table.single t).control.step ⟨state, [tape], steps⟩ =
      .done (.single i) ⟨i.next.getD state, [Action.apply ⟨i.write, i.move⟩ tape], steps + 1⟩ := by
  have hnext : (Table.single t).control.next? ⟨state, [tape], steps⟩ = some (.single i) :=
    Table.lookup_single_eq_some_iff.2 ⟨tape.read, i, rfl, h, rfl⟩
  rw [Control.step_of_next? hnext]
  rfl

theorem isHalted_of_get? (h : t.states.get? state = some none) (steps : Nat) :
    (Table.single t).control.isHalted ⟨state, [tape], steps⟩ = true :=
  Table.isHalted_of_isHalting (beq_iff_eq.2 h)

end SingleTable

/-! ## Several tapes -/

namespace MultiTable

theorem step_of_find? {t : MultiTable} {state : State} {tapes : List Tape} {rule : Rule}
    (h : t.find? state (tapes.map Tape.read) = some rule) (hfits : rule.instruction.fits tapes.length = true)
    (steps : Nat) :
    (Table.multi t).control.step ⟨state, tapes, steps⟩ =
      .done (.multi rule.instruction) ((Instruction.multi rule.instruction).execute ⟨state, tapes, steps⟩) := by
  have hnext : (Table.multi t).control.next? ⟨state, tapes, steps⟩ = some (.multi rule.instruction) :=
    Table.lookup_multi_eq_some_iff.2 ⟨rule, h, rfl⟩
  rw [Control.step_of_next? hnext]
  exact if_pos hfits

end MultiTable

end TapeMachine
