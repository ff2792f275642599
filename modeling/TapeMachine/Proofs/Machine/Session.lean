import TapeMachine.Proofs.Document.Validity
import TapeMachine.Session

/-!
# Sessions with a valid machine

A machine that was read from a text never meets an instruction that is not for its tapes, whatever is done
with it.  The invariant has two parts that need each other: the state is declared, which makes the
instruction one of the table, and there are as many tapes as the table is for.  Steps keep it because the
table is valid, and edits of the tapes do not touch it.
-/

namespace TapeMachine

/-! ## Counting steps -/

namespace Control

theorem steps_run (r : Control) (n : Nat) (c : Config) :
    (r.run n c).2.steps = c.steps + (r.trace n c).length := by
  induction n generalizing c with
  | zero => rfl
  | succ n ih =>
    cases hs : r.step c with
    | halted => simp [run, trace, hs]
    | misfit i => simp [run, trace, hs]
    | done i next =>
      obtain ⟨-, -, rfl⟩ := step_eq_done_iff.1 hs
      rw [run_succ_of_done hs, ih, Instruction.steps_execute]
      simp only [trace, hs, List.length_cons]
      omega

theorem perform_run (r : Control) (n : Nat) (c : Config) :
    r.perform c (.run n) =
      (match (r.run n c).1 with
        | .halted => .halted (r.run n c).2.steps
        | .stepLimit => .stepLimit (r.run n c).2.steps
        | .misfit => .misfit, (r.run n c).2) := by
  rw [perform]
  rcases r.run n c with ⟨ending, last⟩
  cases ending <;> rfl

theorem steps_perform (r : Control) (c : Config) (o : Operation) :
    (r.perform c o).2.steps = c.steps + r.executed c o := by
  cases o with
  | step =>
    cases hs : r.step c with
    | halted => simp [perform, executed, trace, hs]
    | misfit i => simp [perform, executed, trace, hs]
    | done i next =>
      obtain ⟨-, -, rfl⟩ := step_eq_done_iff.1 hs
      simp [perform, executed, trace, hs]
  | run n =>
    rw [perform_run]
    exact steps_run r n c
  | edit tape e =>
    cases hm : c.modifyTape tape e.apply with
    | error e => simp [perform, executed, hm]
    | ok next =>
      obtain ⟨-, rfl⟩ := Config.modifyTape_eq_ok_iff.1 hm
      simp [perform, executed, hm]

theorem steps_session (r : Control) (os : List Operation) (c : Config) :
    (r.session os c).2.steps = c.steps + r.executedAll os c := by
  induction os generalizing c with
  | nil => rfl
  | cons o os ih =>
    by_cases h : (r.perform c o).1 = .misfit
    · rw [session_cons_of_misfit os h, executedAll, if_pos h]
      exact steps_perform r c o
    · rw [session_cons_of_ne_misfit os h, executedAll_cons_of_ne_misfit os h, ← Nat.add_assoc,
        ← steps_perform r c o]
      exact ih _

end Control

/-! ## The invariant -/

namespace Table

variable {t : Table} {c : Config}

/-- A configuration in a declared state, with as many tapes as the table is for. -/
structure Admits (t : Table) (c : Config) : Prop where
  state : c.state ∈ t.states
  tapes : c.tapes.length = t.tapes

theorem Valid.fits_of_next? (ht : t.Valid) (hc : t.Admits c) {i : Instruction}
    (hi : t.control.next? c = some i) : i.fits c.tapes.length = true := by
  rw [hc.tapes]
  exact ht.fitting.fits hi

theorem Valid.target_mem (ht : t.Valid) {state : State} (hs : state ∈ t.states) {symbols : List Symbol}
    {i : Instruction} (hi : t.lookup state symbols = some i) : i.target state ∈ t.states := by
  cases hnext : i.next with
  | none => rwa [Instruction.target, hnext]
  | some q =>
    obtain ⟨r, hr, rfl⟩ := exists_transition_of_lookup hi
    rw [Instruction.target, hnext]
    exact ht.next state r hr q hnext

theorem Admits.execute (ht : t.Valid) (hc : t.Admits c) {i : Instruction}
    (hi : t.control.next? c = some i) : t.Admits (i.execute c) where
  state := ht.target_mem hc.state hi
  tapes := (Instruction.length_tapes_execute i c).trans hc.tapes

theorem Admits.step_ne_misfit (ht : t.Valid) (hc : t.Admits c) (i : Instruction) :
    t.control.step c ≠ .misfit i := by
  intro hs
  obtain ⟨hi, hmisfit⟩ := Control.step_eq_misfit_iff.1 hs
  rw [ht.fits_of_next? hc hi] at hmisfit
  cases hmisfit

theorem Admits.step (ht : t.Valid) (hc : t.Admits c) {i : Instruction} {next : Config}
    (hs : t.control.step c = .done i next) : t.Admits next := by
  obtain ⟨hi, -, rfl⟩ := Control.step_eq_done_iff.1 hs
  exact hc.execute ht hi

theorem Admits.run (ht : t.Valid) (hc : t.Admits c) (n : Nat) :
    (t.control.run n c).1 ≠ .misfit ∧ t.Admits (t.control.run n c).2 := by
  induction n generalizing c with
  | zero =>
    refine ⟨?_, hc⟩
    rw [Control.run_zero]
    cases t.control.isHalted c <;> exact nofun
  | succ n ih =>
    cases hs : t.control.step c with
    | halted =>
      rw [Control.run_of_isHalted (Control.step_eq_halted_iff.1 hs)]
      exact ⟨nofun, hc⟩
    | misfit i => exact absurd hs (hc.step_ne_misfit ht i)
    | done i next =>
      rw [Control.run_succ_of_done hs]
      exact ih (hc.step ht hs)

theorem Admits.modifyTape (hc : t.Admits c) {index : Nat} {f : Tape → Tape} {next : Config}
    (h : c.modifyTape index f = .ok next) : t.Admits next := by
  obtain ⟨-, rfl⟩ := Config.modifyTape_eq_ok_iff.1 h
  exact ⟨hc.state, (List.length_modify f c.tapes index).trans hc.tapes⟩

theorem Admits.perform (ht : t.Valid) (hc : t.Admits c) (o : Operation) :
    (t.control.perform c o).1 ≠ .misfit ∧ t.Admits (t.control.perform c o).2 := by
  cases o with
  | step =>
    rw [Control.perform]
    cases hs : t.control.step c with
    | halted => exact ⟨nofun, hc⟩
    | misfit i => exact absurd hs (hc.step_ne_misfit ht i)
    | done i next => exact ⟨nofun, hc.step ht hs⟩
  | run n =>
    obtain ⟨hending, hlast⟩ := hc.run ht n
    rw [Control.perform_run]
    refine ⟨?_, hlast⟩
    cases he : (t.control.run n c).1 with
    | halted => exact nofun
    | stepLimit => exact nofun
    | misfit => exact absurd he hending
  | edit tape e =>
    rw [Control.perform]
    cases hm : c.modifyTape tape e.apply with
    | error e => exact ⟨nofun, hc⟩
    | ok next => exact ⟨nofun, hc.modifyTape hm⟩

theorem Admits.session (ht : t.Valid) (hc : t.Admits c) (os : List Operation) :
    .misfit ∉ (t.control.session os c).1 ∧ t.Admits (t.control.session os c).2 := by
  induction os generalizing c with
  | nil => exact ⟨List.not_mem_nil, hc⟩
  | cons o os ih =>
    obtain ⟨hanswer, hnext⟩ := hc.perform ht o
    obtain ⟨hanswers, hlast⟩ := ih hnext
    rw [Control.session_cons_of_ne_misfit os hanswer]
    refine ⟨fun hmem => ?_, hlast⟩
    rcases List.mem_cons.1 hmem with h | h
    · exact hanswer h.symm
    · exact hanswers h

end Table

/-! ## Machines of a document -/

namespace Spec

theorem Valid.admits_initial {s : Spec} (hs : s.Valid) (input : Option String) :
    s.table.Admits { s with input := input }.initial where
  state := hs.start
  tapes := (length_initialTapes _).trans hs.tapes.symm

/-- Whatever is done with a machine that was read from a text, on whatever input: no instruction is a
misfit, the tapes stay as many as they were, the state is a declared one, and the counter is the number of
steps that were executed. -/
theorem session_of_parse {text : String} {s : Spec} (h : parse text = .ok s) (input : Option String)
    (os : List Operation) :
    .misfit ∉ (s.table.control.session os { s with input := input }.initial).1 ∧
      ∃ last, (s.table.control.session os { s with input := input }.initial).2 = last ∧
        last.tapes.length = s.tapes ∧ last.state ∈ s.table.states ∧
        last.steps = s.table.control.executedAll os { s with input := input }.initial ∧
        ∀ i, s.table.control.next? last = some i → i.fits last.tapes.length = true := by
  obtain ⟨-, v, -, hv⟩ := parse_eq_ok_iff.1 h
  have hs : s.Valid := valid_of_ofValue hv
  obtain ⟨hanswers, hlast⟩ := (hs.admits_initial input).session hs.table os
  refine ⟨hanswers, _, rfl, hlast.tapes.trans hs.tapes, hlast.state, ?_, fun i hi => ?_⟩
  · rw [Control.steps_session]
    exact Nat.zero_add _
  · exact hs.table.fits_of_next? hlast hi

theorem session_of_parse_marking :
    ∃ s, parse marking = .ok s ∧
      .misfit ∉ (s.table.control.session [.edit 1 (.write 'x'), .edit 3 .left, .step, .run 5]
        { s with input := some "_1" }.initial).1 := by
  obtain ⟨s, hs, -⟩ := exists_parse_marking
  exact ⟨s, hs, (session_of_parse hs (some "_1") _).1⟩

end Spec

end TapeMachine
