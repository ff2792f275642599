import Mathlib.Data.ENat.Lattice
import Mathlib.Logic.Function.Iterate
import TapeMachine.Proofs.Machine.Observation
import TapeMachine.Proofs.Machine.Session

/-!
# Runs with a budget

A run may take a given number of steps, its budget.  Whether it has halted is decided by a check of its own
when the budget is spent, and the counter that it reports goes on from one run to the next.  Still a run of
`n` steps is nothing but `n` attempts to step, one after the other, of which those from the halting
configuration on do nothing.  From this everything else follows: how many steps are executed, how the run
ends, and that two runs are as good as one with the budget of both.
-/

namespace TapeMachine

namespace Control

variable {r : Control} {c : Config}

/-! ## Attempts to step -/

/-- The configuration after an attempt to step. -/
def advance (r : Control) (c : Config) : Config := (r.perform c .step).2

theorem advance_of_isHalted (h : r.isHalted c = true) : r.advance c = c := by
  rw [advance, perform, step_eq_halted_iff.2 h]

theorem advance_of_done {i : Instruction} {next : Config} (h : r.step c = .done i next) :
    r.advance c = next := by
  rw [advance, perform, h]

theorem length_tapes_advance (r : Control) (c : Config) :
    (r.advance c).tapes.length = c.tapes.length := by
  cases hs : r.step c with
  | halted => rw [advance, perform, hs]
  | misfit i => rw [advance, perform, hs]
  | done i next =>
    obtain ⟨-, -, rfl⟩ := step_eq_done_iff.1 hs
    rw [advance_of_done hs, Instruction.length_tapes_execute]

theorem length_tapes_iterate (r : Control) (n : ℕ) (c : Config) :
    (r.advance^[n] c).tapes.length = c.tapes.length := by
  induction n generalizing c with
  | zero => rfl
  | succ n ih => rw [Function.iterate_succ_apply, ih, length_tapes_advance]

theorem iterate_advance_of_isHalted (h : r.isHalted c = true) (n : ℕ) : r.advance^[n] c = c :=
  Function.iterate_fixed (advance_of_isHalted h) n

theorem iterate_advance_of_le {m n : ℕ} (hmn : m ≤ n) (h : r.isHalted (r.advance^[m] c) = true) :
    r.advance^[n] c = r.advance^[m] c := by
  obtain ⟨k, rfl⟩ := Nat.exists_eq_add_of_le' hmn
  rw [Function.iterate_add_apply, iterate_advance_of_isHalted h]

theorem Fitting.step_of_not_isHalted (hr : r.Fitting) (hc : c.tapes.length = r.tapes)
    (h : r.isHalted c = false) : ∃ i, r.step c = .done i (r.advance c) ∧ r.advance c = i.execute c := by
  rw [isHalted, Option.isNone_eq_false_iff, Option.isSome_iff_exists] at h
  obtain ⟨i, hi⟩ := h
  have hs : r.step c = .done i (i.execute c) := hr.step_of_next? hc hi
  refine ⟨i, ?_, advance_of_done hs⟩
  rw [advance_of_done hs]
  exact hs

/-! ## The halting time -/

/-- The number of steps to the first configuration in which no instruction applies. -/
noncomputable def haltingTime (r : Control) (c : Config) : ℕ∞ :=
  ⨅ (n : ℕ) (_ : r.isHalted (r.advance^[n] c) = true), (n : ℕ∞)

theorem haltingTime_le_iff {n : ℕ} : r.haltingTime c ≤ n ↔ r.isHalted (r.advance^[n] c) = true := by
  constructor
  · intro hn
    by_contra hnot
    have hlater : ((n + 1 : ℕ) : ℕ∞) ≤ r.haltingTime c := by
      refine le_iInf₂ fun m hm => ?_
      by_contra hlt
      have hmn : m ≤ n := by
        rw [Nat.cast_le] at hlt
        omega
      apply hnot
      rw [iterate_advance_of_le hmn hm]
      exact hm
    have hsucc : n + 1 ≤ n := Nat.cast_le.1 (hlater.trans hn)
    omega
  · intro h
    exact iInf₂_le n h

theorem lt_haltingTime_iff {n : ℕ} : n < r.haltingTime c ↔ r.isHalted (r.advance^[n] c) = false := by
  rw [← not_le, haltingTime_le_iff, Bool.not_eq_true]

/-- The configuration after `n` attempts is the one after those of them that execute something. -/
theorem iterate_advance_min {n k : ℕ} (hk : (k : ℕ∞) = min (n : ℕ∞) (r.haltingTime c)) :
    r.advance^[n] c = r.advance^[k] c := by
  have hkn : k ≤ n := by
    have hmin : (k : ℕ∞) ≤ n := hk.trans_le (min_le_left _ _)
    exact Nat.cast_le.1 hmin
  rcases le_total (n : ℕ∞) (r.haltingTime c) with hle | hle
  · rw [min_eq_left hle, Nat.cast_inj] at hk
    rw [hk]
  · rw [min_eq_right hle] at hk
    exact iterate_advance_of_le hkn (haltingTime_le_iff.1 hk.ge)

/-! ## Runs -/

namespace Fitting

/-- A run is as many attempts to step as its budget allows. -/
theorem run_eq (hr : r.Fitting) (hc : c.tapes.length = r.tapes) (n : ℕ) :
    r.run n c = (if r.isHalted (r.advance^[n] c) then .halted else .stepLimit, r.advance^[n] c) := by
  induction n generalizing c with
  | zero => exact run_zero r c
  | succ n ih =>
    cases h : r.isHalted c with
    | true => rw [run_of_isHalted h, iterate_advance_of_isHalted h, if_pos h]
    | false =>
      obtain ⟨i, hs, -⟩ := hr.step_of_not_isHalted hc h
      rw [run_succ_of_done hs, ih ((length_tapes_advance r c).trans hc), Function.iterate_succ_apply]

/-- As long as no configuration is a halting one, every attempt executes an instruction and is counted. -/
theorem session_steps (hr : r.Fitting) (hc : c.tapes.length = r.tapes) {k : ℕ}
    (hk : ∀ j < k, r.isHalted (r.advance^[j] c) = false) :
    r.session (List.replicate k .step) c = (List.replicate k (.stepped true), r.advance^[k] c) ∧
      (r.advance^[k] c).steps = c.steps + k := by
  induction k generalizing c with
  | zero => exact ⟨rfl, rfl⟩
  | succ k ih =>
    obtain ⟨i, hs, hi⟩ := hr.step_of_not_isHalted hc (hk 0 (Nat.succ_pos k))
    have hperform : r.perform c .step = (.stepped true, r.advance c) := by rw [perform, hs]
    have hne : (r.perform c .step).1 ≠ .misfit := by
      rw [hperform]
      exact Answer.noConfusion
    have hrest : ∀ j < k, r.isHalted (r.advance^[j] (r.advance c)) = false :=
      fun j hj => hk (j + 1) (Nat.succ_lt_succ hj)
    obtain ⟨hsession, hsteps⟩ := ih ((length_tapes_advance r c).trans hc) hrest
    rw [List.replicate_succ, session_cons_of_ne_misfit _ hne, hperform, hsession]
    refine ⟨rfl, ?_⟩
    rw [Function.iterate_succ_apply, hsteps, hi, Instruction.steps_execute]
    omega

theorem perform_run (hr : r.Fitting) (hc : c.tapes.length = r.tapes) (n : ℕ) :
    r.perform c (.run n) =
      (if r.isHalted (r.advance^[n] c) then .halted (r.advance^[n] c).steps
        else .stepLimit (r.advance^[n] c).steps, r.advance^[n] c) := by
  rw [perform, hr.run_eq hc n]
  cases r.isHalted (r.advance^[n] c) <;> rfl

theorem exists_session_run (hr : r.Fitting) (hc : c.tapes.length = r.tapes) (n : ℕ) :
    ∃ k : ℕ, (k : ℕ∞) = min (n : ℕ∞) (r.haltingTime c) ∧
      r.session (List.replicate k .step) c = (List.replicate k (.stepped true), (r.run n c).2) ∧
      (r.run n c).2.steps = c.steps + k := by
  have hfinite : min (n : ℕ∞) (r.haltingTime c) ≠ ⊤ :=
    ne_top_of_le_ne_top (ENat.natCast_ne_top n) (min_le_left _ _)
  obtain ⟨k, hk⟩ := ENat.ne_top_iff_exists.1 hfinite
  have hactive : ∀ j < k, r.isHalted (r.advance^[j] c) = false := by
    intro j hj
    have hlt : (j : ℕ∞) < k := Nat.cast_lt.2 hj
    exact lt_haltingTime_iff.1 (hlt.trans_le (hk.trans_le (min_le_right _ _)))
  have hlast : (r.run n c).2 = r.advance^[k] c := by
    rw [hr.run_eq hc n]
    exact iterate_advance_min hk
  rw [hlast]
  exact ⟨k, hk, hr.session_steps hc hactive⟩

/-- Whatever the budget, a run executes as many steps as there are up to the halting configuration, but no
more than the budget, and leaves what they leave; it halts if and only if the budget is large enough, and
then it is in the halting configuration.  Two runs do what one run with both budgets does. -/
theorem run_within_budget (hr : r.Fitting) (hc : c.tapes.length = r.tapes) :
    (∀ n : ℕ, ∃ k : ℕ, (k : ℕ∞) = min (n : ℕ∞) (r.haltingTime c) ∧
      r.session (List.replicate k .step) c = (List.replicate k (.stepped true), (r.run n c).2) ∧
      r.executed c (.run n) = k ∧ (r.run n c).2.steps = c.steps + k ∧
      (r.haltingTime c ≤ n → r.perform c (.run n) = (.halted (r.run n c).2.steps, (r.run n c).2)) ∧
      (n < r.haltingTime c → r.perform c (.run n) = (.stepLimit (r.run n c).2.steps, (r.run n c).2)) ∧
      (r.haltingTime c ≤ n ↔ r.isHalted (r.run n c).2 = true)) ∧
    ∀ m n : ℕ, r.perform (r.perform c (.run m)).2 (.run n) = r.perform c (.run (m + n)) := by
  constructor
  · intro n
    obtain ⟨k, hk, hsession, hsteps⟩ := hr.exists_session_run hc n
    have hexecuted : r.executed c (.run n) = k := by
      have hcounted := steps_run r n c
      rw [hsteps] at hcounted
      rw [executed]
      omega
    refine ⟨k, hk, hsession, hexecuted, hsteps, ?_⟩
    rw [hr.perform_run hc n, hr.run_eq hc n]
    refine ⟨?_, ?_, haltingTime_le_iff⟩
    · intro hle
      rw [if_pos (haltingTime_le_iff.1 hle)]
    · intro hlt
      rw [lt_haltingTime_iff.1 hlt]
      rfl
  · intro m n
    have hmiddle : (r.advance^[m] c).tapes.length = r.tapes := (length_tapes_iterate r m c).trans hc
    rw [hr.perform_run hc m, hr.perform_run hmiddle n, hr.perform_run hc (m + n),
      ← Function.iterate_add_apply, Nat.add_comm n m]

end Fitting

/-- The last step of the budget leads to the halting configuration. -/
theorem run_within_budget_pacing :
    Table.pacing.control.Fitting ∧ Table.pacing.initial.tapes.length = Table.pacing.control.tapes ∧
      Table.pacing.control.haltingTime Table.pacing.initial ≤ (2 : ℕ) ∧
      ¬ Table.pacing.control.haltingTime Table.pacing.initial ≤ (1 : ℕ) ∧
      (Table.pacing.control.perform Table.pacing.initial (.run 1)).1 = .stepLimit 1 ∧
      (Table.pacing.control.perform
        (Table.pacing.control.perform Table.pacing.initial (.run 1)).2 (.run 1)).1 = .halted 2 := by
  have hfitting : Table.pacing.Fitting := by decide
  obtain ⟨hbudget, hadd⟩ := hfitting.control.run_within_budget (c := Table.pacing.initial) rfl
  obtain ⟨_, -, -, -, -, -, -, hone⟩ := hbudget 1
  obtain ⟨_, -, -, -, -, -, -, htwo⟩ := hbudget 2
  refine ⟨hfitting.control, rfl, htwo.2 (by decide), ?_, by decide, ?_⟩
  · rw [hone]
    decide
  · rw [hadd 1 1]
    decide

end Control

end TapeMachine
