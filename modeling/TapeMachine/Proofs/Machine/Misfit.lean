import TapeMachine.Proofs.Graph.Control
import TapeMachine.Proofs.Machine.Invariant
import TapeMachine.Proofs.Machine.Observation

/-!
# Steps that break off

A table that was not read from a document may hold instructions for another number of tapes than it is for, and a
machine that comes to such an instruction breaks off.  A machine works in place, on one tape after the other, so that
what it has done by then stays done.  `Control.stepInPlace` and `Control.runInPlace` spell this out, write by write
and move by move.  Since an instruction is taken apart before its first action is taken, a step that breaks off has
done nothing but choose its instruction, and a run that breaks off has done the steps up to there.
-/

namespace TapeMachine

variable {σ : Type}

/-! ## Working in place -/

/-- Work on a machine and on what its observer has been told.  It may break off, and what has been done by then
stays done. -/
abbrev Work (σ α : Type) := EStateM Unit (Config × σ) α

namespace Work

def setTape (index : Nat) (t : Tape) : Work σ Unit :=
  modify fun (c, s) => ({ c with tapes := c.tapes.set index t }, s)

def setState (state : State) : Work σ Unit := modify fun (c, s) => ({ c with state := state }, s)

def countStep : Work σ Unit := modify fun (c, s) => ({ c with steps := c.steps + 1 }, s)

def tell (f : σ → σ) : Work σ Unit := modify fun (c, s) => (c, f s)

end Work

/-- The actions for `n` tapes.  All of them are put together before the first is taken. -/
def Instruction.actions (i : Instruction) (n : Nat) : Work σ (List Action) :=
  if i.fits n then pure ((List.range n).map i.actionFor) else throw ()

/-- Writes and moves on the tape `t` with the given number. -/
def Action.take (o : Observer σ) (index : Nat) (t : Tape) (a : Action) : Work σ Unit := do
  match a.write with
  | none => Work.setTape index (t.move a.move)
  | some c =>
    Work.setTape index (t.write c)
    Work.tell (o.written index t.read c)
    Work.setTape index ((t.write c).move a.move)
  Work.tell (o.moved index a.move)

/-- Takes the actions on the tapes that they are for, which are numbered from `index` on. -/
def Action.takeAll (o : Observer σ) : (index : Nat) → List (Tape × Action) → Work σ Unit
  | _, [] => pure ()
  | index, (t, a) :: rest => do
    a.take o index t
    takeAll o (index + 1) rest

namespace Control

/-- A step, and whether there was an instruction for it. -/
def stepInPlace (r : Control) (o : Observer σ) : Work σ Bool := do
  let (c, _) ← get
  match r.next? c with
  | none => return false
  | some i =>
    Work.tell (o.selected c.state c.symbols i)
    let actions ← i.actions c.tapes.length
    Action.takeAll o 0 (c.tapes.zip actions)
    match i.next with
    | none => pure ()
    | some next =>
      Work.setState next
      Work.tell (o.changed c.state next)
    Work.countStep
    return true

/-- A run of at most `n` steps. -/
def runInPlace (r : Control) (o : Observer σ) : (n : Nat) → Work σ Ending
  | 0 => do
    let (c, _) ← get
    return if r.isHalted c then .halted else .stepLimit
  | n + 1 => do
    if ← r.stepInPlace o then runInPlace r o n else return .halted

end Control

/-! ## The work that is done -/

/-- What the work on a step comes to. -/
def Step.inPlace (c : Config) : Step × σ → EStateM.Result Unit (Config × σ) Bool
  | (.halted, s) => .ok false (c, s)
  | (.misfit _, s) => .error () (c, s)
  | (.done _ next, s) => .ok true (next, s)

/-- What the work on a run comes to. -/
def Control.Ending.inPlace : (Control.Ending × Config) × σ → EStateM.Result Unit (Config × σ) Control.Ending
  | ((.halted, c), s) => .ok .halted (c, s)
  | ((.stepLimit, c), s) => .ok .stepLimit (c, s)
  | ((.misfit, c), s) => .error () (c, s)

section
variable (o : Observer σ) (r : Control)

theorem Action.run_take (a : Action) (state : State) (steps : Nat) (ts us : List Tape) (t : Tape) (s : σ) :
    (a.take o ts.length t).run (⟨state, ts ++ t :: us, steps⟩, s) =
      .ok () (⟨state, ts ++ (a.applyWith o ts.length t s).1 :: us, steps⟩, (a.applyWith o ts.length t s).2) := by
  obtain ⟨write, move⟩ := a
  cases write with
  | none => simp [take, applyWith, Work.setTape, Work.tell]
  | some c => simp [take, applyWith, Work.setTape, Work.tell]

/-- Tape by tape: `ts` are the tapes that are done. -/
theorem Action.run_takeAll (i : Instruction) (state : State) (steps : Nat) (ts us : List Tape) (s : σ) :
    (takeAll o ts.length (us.zip ((List.range' ts.length us.length).map i.actionFor))).run
        (⟨state, ts ++ us, steps⟩, s) =
      .ok () (⟨state, ts ++ (i.applyWith o ts.length us s).1, steps⟩, (i.applyWith o ts.length us s).2) := by
  induction us generalizing ts s with
  | nil => rfl
  | cons t us ih =>
    have htake := run_take o (i.actionFor ts.length) state steps ts us t s
    have hrest := ih (ts ++ [((i.actionFor ts.length).applyWith o ts.length t s).1])
      ((i.actionFor ts.length).applyWith o ts.length t s).2
    simp only [List.length_append, List.length_singleton, List.append_assoc, List.singleton_append] at hrest
    rw [List.length_cons, List.range'_succ, List.map_cons, List.zip_cons_cons, takeAll, EStateM.run_bind, htake]
    exact hrest

theorem Control.run_stepInPlace (c : Config) (s : σ) :
    (r.stepInPlace o).run (c, s) = Step.inPlace c (r.stepWith o c s) := by
  cases hi : r.next? c with
  | none => simp [stepInPlace, stepWith, hi, Step.inPlace]
  | some i =>
    by_cases hfits : i.fits c.tapes.length = true
    · have htapes : (Action.takeAll o 0 (c.tapes.zip ((List.range c.tapes.length).map i.actionFor))).run
          (c, o.selected c.state c.symbols i s) =
            .ok () (⟨c.state, (i.applyWith o 0 c.tapes (o.selected c.state c.symbols i s)).1, c.steps⟩,
              (i.applyWith o 0 c.tapes (o.selected c.state c.symbols i s)).2) := by
        rw [List.range_eq_range']
        exact Action.run_takeAll o i c.state c.steps [] c.tapes _
      cases hnext : i.next <;>
        simp only [stepInPlace, stepWith, hi, hfits, hnext, htapes, Instruction.actions, Work.tell, Work.setState,
          Work.countStep, EStateM.run_bind, EStateM.run_get, EStateM.run_modify, EStateM.run_pure, if_true, Step.inPlace]
    · simp only [stepInPlace, stepWith, hi, Instruction.actions, if_neg hfits, Work.tell, EStateM.run_bind,
        EStateM.run_get, EStateM.run_modify, Step.inPlace]
      rfl

theorem Control.run_runInPlace (n : Nat) (c : Config) (s : σ) :
    (r.runInPlace o n).run (c, s) = Control.Ending.inPlace (r.runWith o n c s) := by
  induction n generalizing c s with
  | zero =>
    rw [runInPlace, runWith, EStateM.run_bind, EStateM.run_get]
    cases h : r.isHalted c <;> simp [h, Ending.inPlace]
  | succ n ih =>
    rw [runInPlace, EStateM.run_bind, run_stepInPlace, runWith]
    rcases r.stepWith o c s with ⟨_ | i | ⟨i, next⟩, s⟩
    · rfl
    · rfl
    · exact ih next s

end

/-! ## Misfits -/

/-- The instruction has writes or moves, and not as many as there are tapes. -/
def MultiInstruction.Misfits (i : MultiInstruction) (n : Nat) : Prop :=
  (∃ ws, i.write = some ws ∧ ws.length ≠ n) ∨ ∃ ds, i.moves = some ds ∧ ds.length ≠ n

theorem MultiInstruction.fits_eq_false_iff {i : MultiInstruction} {n : Nat} : i.fits n = false ↔ i.Misfits n := by
  rw [← Bool.not_eq_true, fits_iff, Misfits, not_and_or]
  simp only [not_forall, exists_prop]

/-- The instruction that is chosen is the given one, and a misfit. -/
def Control.Breaks (r : Control) (c : Config) (i : MultiInstruction) : Prop :=
  r.next? c = some (.multi i) ∧ i.Misfits c.tapes.length

/-- An instruction for one tape is only found on one tape, where it fits. -/
theorem Table.step_eq_misfit_iff {t : Table} {c : Config} (hc : c.tapes.length = t.tapes) {i : Instruction} :
    t.control.step c = .misfit i ↔ ∃ j, i = .multi j ∧ t.control.Breaks c j := by
  rw [Control.step_eq_misfit_iff]
  constructor
  · rintro ⟨hi, hmisfit⟩
    cases t with
    | single t =>
      obtain ⟨_, j, -, -, rfl⟩ := lookup_single_eq_some_iff.1 hi
      rw [hc] at hmisfit
      cases hmisfit
    | multi t =>
      obtain ⟨rule, -, rfl⟩ := lookup_multi_eq_some_iff.1 hi
      exact ⟨rule.instruction, rfl, hi, MultiInstruction.fits_eq_false_iff.1 hmisfit⟩
  · rintro ⟨j, rfl, hj, hmisfit⟩
    exact ⟨hj, MultiInstruction.fits_eq_false_iff.2 hmisfit⟩

namespace Control

variable {r : Control} {c last : Config} {i : Instruction} {k n : Nat}

/-- That many attempts to step all execute an instruction, the last of them into the given configuration. -/
def Executes (r : Control) (k : Nat) (c last : Config) : Prop :=
  r.session (List.replicate k .step) c = (List.replicate k (.stepped true), last)

theorem executes_zero_iff : r.Executes 0 c last ↔ c = last := by
  simp [Executes, session]

theorem executes_succ_iff :
    r.Executes (k + 1) c last ↔ ∃ i next, r.step c = .done i next ∧ r.Executes k next last := by
  rw [Executes, List.replicate_succ, List.replicate_succ]
  cases hs : r.step c with
  | halted => simp [session, perform, hs]
  | misfit i => simp [session, perform, hs]
  | done i next => simp [session, perform, hs, Executes, Prod.ext_iff]

theorem performWith_step_of_misfit (o : Observer σ) (s : σ) (h : r.step c = .misfit i) :
    r.performWith o c s .step = ((.misfit, c), o.selected c.state c.symbols i s) := by
  rw [performWith_eq, attemptsOf, List.flatMap_singleton, events_eq, h, perform, h]
  rfl

theorem run_eq_misfit_iff :
    r.run n c = (.misfit, last) ↔ ∃ k < n, ∃ i, r.Executes k c last ∧ r.step last = .misfit i := by
  induction n generalizing c with
  | zero =>
    rw [run_zero]
    cases r.isHalted c <;> simp
  | succ n ih =>
    rw [Nat.exists_lt_succ_left]
    simp only [executes_zero_iff, executes_succ_iff]
    rw [run]
    cases hs : r.step c with
    | halted => grind
    | misfit i => grind
    | done i next =>
      simp only [ih]
      grind

theorem runWith_of_misfit (o : Observer σ) (s : σ) (hk : k < n) (h : r.Executes k c last)
    (hi : r.step last = .misfit i) :
    r.runWith o n c s =
      ((.misfit, last), o.selected last.state last.symbols i (r.sessionWith o (List.replicate k .step) c s).2) := by
  induction k generalizing n c s with
  | zero =>
    obtain rfl := executes_zero_iff.1 h
    obtain ⟨n, rfl⟩ := Nat.exists_eq_add_of_lt hk
    rw [runWith, stepWith_eq, hi]
    rfl
  | succ k ih =>
    obtain ⟨j, next, hs, hnext⟩ := executes_succ_iff.1 h
    obtain ⟨n, rfl⟩ := Nat.exists_eq_add_of_lt hk
    have hrest := ih (n := k + 1 + n) ((r.stepWith o c s).2) (by omega) hnext
    rw [runWith, List.replicate_succ, sessionWith, performWith]
    rw [stepWith_eq, hs] at hrest ⊢
    exact hrest

theorem perform_step_eq_misfit_iff : (r.perform c .step).1 = .misfit ↔ ∃ i, r.step c = .misfit i := by
  rw [perform]
  cases r.step c <;> simp

theorem perform_run_eq_misfit_iff : (r.perform c (.run n)).1 = .misfit ↔ ∃ last, r.run n c = (.misfit, last) := by
  rw [perform]
  rcases r.run n c with ⟨ending, last⟩
  cases ending <;> simp

end Control

namespace Table

/-- A machine over any table, driven by the table or by its graph, and in whatever configuration it can get into,
breaks off exactly where the instruction that is chosen has writes or moves, and not as many as there are tapes.  A
step that breaks off leaves the machine as it was, the counter included, and all that an observer is told of it is
which instruction was chosen; a run that breaks off leaves the machine as the last step did that was executed.  This
is so too if the machine works in place. -/
theorem misfit_leaves (t : Table) {r : Control} (hr : r = t.control ∨ r = t.graph.control) {start : State}
    {tapes : List Tape} {initial c : Config} (hstart : r.start start tapes = .ok initial) {os : List Operation}
    (hc : (r.session os initial).2 = c) (o : Observer σ) (s : σ) :
    ((r.perform c .step).1 = .misfit ↔ ∃ i, r.Breaks c i) ∧
    (∀ i, r.Breaks c i →
      r.performWith o c s .step = ((.misfit, c), o.selected c.state c.symbols (.multi i) s) ∧
        (r.stepInPlace o).run (c, s) = .error () (c, o.selected c.state c.symbols (.multi i) s)) ∧
    ∀ n,
      ((r.perform c (.run n)).1 = .misfit ↔ ∃ k < n, ∃ last i, r.Executes k c last ∧ r.Breaks last i) ∧
      ∀ k < n, ∀ last i, r.Executes k c last → r.Breaks last i →
        ∃ s', s' = (r.sessionWith o (List.replicate k .step) c s).2 ∧
          r.performWith o c s (.run n) = ((.misfit, last), o.selected last.state last.symbols (.multi i) s') ∧
          (r.runInPlace o n).run (c, s) = .error () (last, o.selected last.state last.symbols (.multi i) s') := by
  obtain rfl : r = t.control := hr.elim id fun h => h.trans (StateGraph.control_graph t)
  have hlength : c.tapes.length = t.tapes := by
    obtain ⟨htapes, rfl⟩ := Control.start_eq_ok_iff.1 hstart
    rw [← hc, Control.length_tapes_session]
    exact htapes.symm
  have hbreaks : ∀ {d : Config} {i}, d.tapes.length = t.tapes →
      t.control.Breaks d i → t.control.step d = .misfit (.multi i) :=
    fun hd h => (step_eq_misfit_iff hd).2 ⟨_, rfl, h⟩
  have hlast : ∀ {k last}, t.control.Executes k c last → last.tapes.length = t.tapes := by
    intro k last h
    rw [← hlength, ← Control.length_tapes_session t.control (List.replicate k .step) c, h]
  refine ⟨?_, fun i hi => ⟨?_, ?_⟩, fun n => ⟨?_, fun k hk last i hsteps hi => ⟨_, rfl, ?_, ?_⟩⟩⟩
  · rw [Control.perform_step_eq_misfit_iff]
    exact ⟨fun ⟨i, hi⟩ => ((step_eq_misfit_iff hlength).1 hi).imp fun j hj => hj.2,
      fun ⟨i, hi⟩ => ⟨_, hbreaks hlength hi⟩⟩
  · exact Control.performWith_step_of_misfit o s (hbreaks hlength hi)
  · rw [Control.run_stepInPlace, Control.stepWith_eq, hbreaks hlength hi]
    rfl
  · simp only [Control.perform_run_eq_misfit_iff, Control.run_eq_misfit_iff]
    constructor
    · rintro ⟨last, k, hk, i, hsteps, hi⟩
      obtain ⟨j, -, hj⟩ := (step_eq_misfit_iff (hlast hsteps)).1 hi
      exact ⟨k, hk, last, j, hsteps, hj⟩
    · rintro ⟨k, hk, last, j, hsteps, hj⟩
      exact ⟨last, k, hk, _, hsteps, hbreaks (hlast hsteps) hj⟩
  · rw [Control.performWith, Control.runWith_of_misfit o s hk hsteps (hbreaks (hlast hsteps) hi)]
  · rw [Control.run_runInPlace, Control.runWith_of_misfit o s hk hsteps (hbreaks (hlast hsteps) hi)]
    rfl

/-- A table whose second rule has writes for its tapes, and one move too few. -/
def faltering : Table := .multi {
  tapes := 2
  wildcard := none
  states := ⟨[("a", some [
    ⟨['0', ' '], ⟨some [some '1', some 'x'], none, none⟩⟩,
    ⟨['1', 'x'], ⟨some [some '0', none], some [.right], some "b"⟩⟩])], by decide⟩ }

def faltering.initial : Config := ⟨"a", [Tape.new ' ' ['0'], Tape.new ' ' []], 0⟩

/-- After the only step that is executed. -/
def faltering.last : Config := ⟨"a", [Tape.new ' ' ['1'], Tape.new ' ' ['x']], 1⟩

theorem misfit_leaves_faltering :
    faltering.graph.control.start "a" [Tape.new ' ' ['0'], Tape.new ' ' []] = .ok faltering.initial ∧
    faltering.graph.control.performWith recorder faltering.initial #[] (.run 5) = ((.misfit, faltering.last), #[
      .selected "a" ['0', ' '] (.multi ⟨some [some '1', some 'x'], none, none⟩),
      .written 0 '0' '1', .moved 0 .stay, .written 1 ' ' 'x', .moved 1 .stay,
      .selected "a" ['1', 'x'] (.multi ⟨some [some '0', none], some [.right], some "b"⟩)]) := by
  have hstart : faltering.graph.control.start "a" [Tape.new ' ' ['0'], Tape.new ' ' []] = .ok faltering.initial := by
    decide
  have hsession : (faltering.graph.control.session [] faltering.initial).2 = faltering.initial := rfl
  obtain ⟨-, -, hrun⟩ := misfit_leaves faltering (.inr rfl) hstart hsession recorder #[]
  have hsteps : faltering.graph.control.Executes 1 faltering.initial faltering.last := by
    unfold Control.Executes
    decide
  have hbreaks : faltering.graph.control.Breaks faltering.last ⟨some [some '0', none], some [.right], some "b"⟩ :=
    ⟨by decide, .inr ⟨[.right], rfl, by decide⟩⟩
  obtain ⟨_, rfl, hlast, -⟩ := (hrun 5).2 1 (by decide) _ _ hsteps hbreaks
  exact ⟨hstart, hlast.trans rfl⟩

end Table

end TapeMachine
