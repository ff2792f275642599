import TapeMachine.Session

/-!
# What every step keeps

What is true of a configuration and is kept by every step, and by the edits of the tapes that there are, is true
after every run and every session.
-/

namespace TapeMachine

namespace Control

variable {r : Control} {P : Config → Prop} {c : Config}

theorem run_invariant (hstep : ∀ c i next, P c → r.step c = .done i next → P next) (hc : P c) (n : Nat) :
    P (r.run n c).2 := by
  induction n generalizing c with
  | zero => exact hc
  | succ n ih =>
    rw [run]
    cases hs : r.step c with
    | halted => exact hc
    | misfit i => exact hc
    | done i next => exact ih (hstep c i next hc hs)

theorem perform_invariant (hstep : ∀ c i next, P c → r.step c = .done i next → P next) {o : Operation}
    (hedit : ∀ tape e, o = .edit tape e → ∀ c next, P c → c.modifyTape tape e.apply = .ok next → P next)
    (hc : P c) : P (r.perform c o).2 := by
  cases o with
  | step =>
    rw [perform]
    cases hs : r.step c with
    | halted => exact hc
    | misfit i => exact hc
    | done i next => exact hstep c i next hc hs
  | run n =>
    have hlast := run_invariant hstep hc n
    rw [perform]
    rcases hr : r.run n c with ⟨ending, last⟩
    rw [hr] at hlast
    cases ending <;> exact hlast
  | edit tape e =>
    rw [perform]
    cases hm : c.modifyTape tape e.apply with
    | error e => exact hc
    | ok next => exact hedit tape e rfl c next hc hm

theorem session_invariant (hstep : ∀ c i next, P c → r.step c = .done i next → P next) {os : List Operation}
    (hedit : ∀ tape e, .edit tape e ∈ os → ∀ c next, P c → c.modifyTape tape e.apply = .ok next → P next)
    (hc : P c) : P (r.session os c).2 := by
  induction os generalizing c with
  | nil => exact hc
  | cons o os ih =>
    have hnext : P (r.perform c o).2 :=
      perform_invariant hstep (fun tape e ho => hedit tape e (ho ▸ List.mem_cons_self)) hc
    by_cases h : (r.perform c o).1 = .misfit
    · rw [session_cons_of_misfit os h]
      exact hnext
    · rw [session_cons_of_ne_misfit os h]
      exact ih (fun tape e he => hedit tape e (List.mem_cons_of_mem o he)) hnext

theorem length_tapes_session (r : Control) (os : List Operation) (c : Config) :
    (r.session os c).2.tapes.length = c.tapes.length := by
  refine session_invariant (P := fun d => d.tapes.length = c.tapes.length) ?_ ?_ rfl
  · intro d i next hd hs
    obtain ⟨-, -, rfl⟩ := step_eq_done_iff.1 hs
    exact (i.length_tapes_execute d).trans hd
  · intro tape e _ d next hd hm
    obtain ⟨-, rfl⟩ := Config.modifyTape_eq_ok_iff.1 hm
    exact (List.length_modify _ _ _).trans hd

end Control

theorem Table.getElem?_tapes_run {t : Table} {tape : Nat}
    (h : ∀ state ∈ t.states, ∀ r ∈ t.transitions state, r.instruction.actionFor tape = ⟨none, .stay⟩)
    (c : Config) (n : Nat) : (t.control.perform c (.run n)).2.tapes[tape]? = c.tapes[tape]? := by
  refine Control.perform_invariant (P := fun d => d.tapes[tape]? = c.tapes[tape]?) ?_ ?_ rfl
  · intro d i next hd hs
    obtain ⟨hi, -, rfl⟩ := Control.step_eq_done_iff.1 hs
    have hstate := mem_states_of_lookup hi
    obtain ⟨r, hr, rfl⟩ := exists_transition_of_lookup hi
    have hstays : Action.apply ⟨none, .stay⟩ = id := rfl
    rw [Instruction.getElem?_tapes_execute, h d.state hstate r hr, hstays, Option.map_id]
    exact hd
  · intro tape e he
    cases he

end TapeMachine
