import TapeMachine.Table
import TapeMachine.Tape

/-!
# Machines

A machine reads the symbols under its heads, asks its control for the instruction, and executes it:
on each tape it writes, then moves, and at the end it changes its state.  It halts where there is no
instruction.  An instruction that is not for as many tapes as the machine has is a misfit: nothing of it
is executed, and a run ends there.

What a machine does can be observed while it does it.  An observer has a hook for each kind of event, and what
it has been told so far is a state of its own, which the machine cannot see.  The hooks are called in the
course of a step: when the instruction has been chosen, then tape by tape after the write and after the move,
and when the state has changed.  A recorder keeps all that it is told, and the events of a step or a run are
what it has in the end.
-/

namespace TapeMachine

/-- Where a machine gets its instructions from. -/
structure Control where
  tapes : Nat
  lookup : State → List Symbol → Option Instruction

def Table.control (t : Table) : Control := ⟨t.tapes, t.lookup⟩

structure Config where
  state : State
  tapes : List Tape
  /-- How many steps have been executed. -/
  steps : Nat
deriving DecidableEq

inductive Event where
  /-- The control has chosen an instruction for a state and the symbols read. -/
  | selected (state : State) (symbols : List Symbol) (instruction : Instruction)
  | written (tape : Nat) (previous symbol : Symbol)
  | moved (tape : Nat) (direction : Direction)
  | changed (source target : State)
deriving DecidableEq

inductive MachineError where
  | arityMismatch (expected actual : Nat)
  | tapeIndex (index tapes : Nat)
deriving DecidableEq

def MachineError.message : MachineError → String
  | .arityMismatch expected actual =>
    s!"Transition table expects {expected} tape(s) but {actual} were provided"
  | .tapeIndex index tapes =>
    s!"Tape index {index} is out of bounds (machine has {tapes} tapes)"

namespace Config

def symbols (c : Config) : List Symbol := c.tapes.map Tape.read

/-- The state and the tapes. -/
def display (c : Config) : String := " ".intercalate (c.state :: c.tapes.map Tape.display)

def tape (c : Config) (index : Nat) : Except MachineError Tape :=
  match c.tapes[index]? with
  | some t => .ok t
  | none => .error (.tapeIndex index c.tapes.length)

/-- The configuration with one of the tapes edited. -/
def modifyTape (c : Config) (index : Nat) (f : Tape → Tape) : Except MachineError Config :=
  if index < c.tapes.length then .ok { c with tapes := c.tapes.modify index f }
  else .error (.tapeIndex index c.tapes.length)

@[simp] theorem length_symbols (c : Config) : c.symbols.length = c.tapes.length := List.length_map _

theorem modifyTape_eq_ok_iff {c next : Config} {index : Nat} {f : Tape → Tape} :
    c.modifyTape index f = .ok next ↔
      index < c.tapes.length ∧ next = { c with tapes := c.tapes.modify index f } := by
  unfold modifyTape
  by_cases h : index < c.tapes.length
  · simp [h, eq_comm]
  · simp [h]

end Config

/-! ## Steps -/

namespace Action

def apply (a : Action) (t : Tape) : Tape := ((a.write.map t.write).getD t).move a.move

theorem position_apply (a : Action) (t : Tape) :
    (a.apply t).position = t.position + a.move.offset := by
  rw [apply, Tape.position_move]
  cases a.write <;> rfl

theorem cell_apply (a : Action) (t : Tape) (i : Int) :
    (a.apply t).cell i =
      match a.write with
      | none => t.cell i
      | some c => if i = t.position then c else t.cell i := by
  rw [apply, Tape.cell_move]
  cases a.write with
  | none => rfl
  | some c => exact Tape.cell_write t c i

theorem cell_apply_of_ne (a : Action) {t : Tape} {i : Int} (h : i ≠ t.position) :
    (a.apply t).cell i = t.cell i := by
  rw [cell_apply]
  cases a.write with
  | none => rfl
  | some c => exact if_neg h

theorem cell_apply_position (a : Action) (t : Tape) : (a.apply t).cell t.position = a.write.getD t.read := by
  rw [cell_apply]
  cases a.write with
  | none => exact Tape.cell_position t
  | some c => exact if_pos rfl

end Action

namespace Instruction

/-- The configuration after the instruction. -/
def execute (i : Instruction) (c : Config) : Config where
  state := i.target c.state
  tapes := c.tapes.mapIdx fun index t => (i.actionFor index).apply t
  steps := c.steps + 1

@[simp] theorem state_execute (i : Instruction) (c : Config) : (i.execute c).state = i.target c.state :=
  rfl

@[simp] theorem length_tapes_execute (i : Instruction) (c : Config) :
    (i.execute c).tapes.length = c.tapes.length := List.length_mapIdx

@[simp] theorem steps_execute (i : Instruction) (c : Config) : (i.execute c).steps = c.steps + 1 := rfl

theorem getElem?_tapes_execute (i : Instruction) (c : Config) (tape : Nat) :
    (i.execute c).tapes[tape]? = c.tapes[tape]?.map (i.actionFor tape).apply := List.getElem?_mapIdx

end Instruction

/-- What comes of an attempt to step. -/
inductive Step where
  | halted
  | misfit (i : Instruction)
  | done (i : Instruction) (next : Config)

namespace Control

/-- A machine with the given tapes, at the start. -/
def start (r : Control) (state : State) (tapes : List Tape) : Except MachineError Config :=
  if r.tapes = tapes.length then .ok ⟨state, tapes, 0⟩
  else .error (.arityMismatch r.tapes tapes.length)

/-- The instruction that the next step executes. -/
def next? (r : Control) (c : Config) : Option Instruction := r.lookup c.state c.symbols

def isHalted (r : Control) (c : Config) : Bool := (r.next? c).isNone

def step (r : Control) (c : Config) : Step :=
  match r.next? c with
  | none => .halted
  | some i => if i.fits c.tapes.length then .done i (i.execute c) else .misfit i

/-! ## Runs -/

/-- How a run ends. -/
inductive Ending where
  | halted
  | stepLimit
  | misfit
deriving DecidableEq

/-- A run of at most `n` steps, and the configuration after the last of them. -/
def run (r : Control) : (n : Nat) → Config → Ending × Config
  | 0, c => (if r.isHalted c then .halted else .stepLimit, c)
  | n + 1, c =>
    match r.step c with
    | .halted => (.halted, c)
    | .misfit _ => (.misfit, c)
    | .done _ next => run r n next

/-- The configurations after each of at most `n` steps. -/
def trace (r : Control) : (n : Nat) → Config → List Config
  | 0, _ => []
  | n + 1, c =>
    match r.step c with
    | .done _ next => next :: trace r n next
    | _ => []

/-- The number of steps that a run may take where no number is given. -/
def defaultSteps : Nat := 10000

theorem start_eq_ok_iff {r : Control} {state : State} {tapes : List Tape} {c : Config} :
    r.start state tapes = .ok c ↔ r.tapes = tapes.length ∧ c = ⟨state, tapes, 0⟩ := by
  unfold start
  by_cases h : r.tapes = tapes.length
  · simp [h, eq_comm]
  · simp [h]

theorem run_zero (r : Control) (c : Config) :
    r.run 0 c = (if r.isHalted c then .halted else .stepLimit, c) := rfl

theorem step_of_next? {r : Control} {c : Config} {i : Instruction} (h : r.next? c = some i) :
    r.step c = if i.fits c.tapes.length then .done i (i.execute c) else .misfit i := by
  rw [step, h]

theorem step_eq_done_iff {r : Control} {c next : Config} {i : Instruction} :
    r.step c = .done i next ↔
      r.next? c = some i ∧ i.fits c.tapes.length = true ∧ next = i.execute c := by
  cases h : r.next? c with
  | none => simp [step, h]
  | some j =>
    rw [step_of_next? h]
    by_cases hj : j.fits c.tapes.length = true
    · rw [if_pos hj]
      grind
    · rw [if_neg hj]
      grind

theorem step_eq_misfit_iff {r : Control} {c : Config} {i : Instruction} :
    r.step c = .misfit i ↔ r.next? c = some i ∧ i.fits c.tapes.length = false := by
  cases h : r.next? c with
  | none => simp [step, h]
  | some j =>
    rw [step_of_next? h]
    by_cases hj : j.fits c.tapes.length = true
    · rw [if_pos hj]
      grind
    · rw [if_neg hj]
      grind

theorem step_eq_halted_iff {r : Control} {c : Config} : r.step c = .halted ↔ r.isHalted c = true := by
  unfold step isHalted
  split
  · simp_all
  · split <;> simp_all

theorem run_of_isHalted {r : Control} {c : Config} (h : r.isHalted c = true) (n : Nat) :
    r.run n c = (.halted, c) := by
  cases n with
  | zero => rw [run_zero, if_pos h]
  | succ n => rw [run, step_eq_halted_iff.2 h]

theorem run_succ_of_done {r : Control} {c next : Config} {i : Instruction}
    (h : r.step c = .done i next) (n : Nat) : r.run (n + 1) c = r.run n next := by
  rw [run, h]

/-- Whether every instruction is for as many tapes as the control. -/
def Fitting (r : Control) : Prop :=
  ∀ state symbols i, symbols.length = r.tapes → r.lookup state symbols = some i → i.fits r.tapes = true

theorem Fitting.step_of_next? {r : Control} (hr : r.Fitting) {c : Config} (hc : c.tapes.length = r.tapes)
    {i : Instruction} (hi : r.next? c = some i) : r.step c = .done i (i.execute c) := by
  have hlength : c.symbols.length = r.tapes := (Config.length_symbols c).trans hc
  have hfits : i.fits c.tapes.length = true := by
    rw [hc]
    exact hr c.state c.symbols i hlength hi
  rw [Control.step_of_next? hi, if_pos hfits]

end Control

theorem Table.Fitting.control {t : Table} (ht : t.Fitting) : t.control.Fitting :=
  fun _ _ _ _ hi => ht.fits hi

/-! ## Observing -/

/-- What is called while a machine works.  A hook that is not given does nothing. -/
structure Observer (σ : Type) where
  selected : State → List Symbol → Instruction → σ → σ := fun _ _ _ s => s
  /-- Called for every write that an instruction names, also of the symbol that is there already. -/
  written : (tape : Nat) → (previous symbol : Symbol) → σ → σ := fun _ _ _ s => s
  moved : (tape : Nat) → Direction → σ → σ := fun _ _ s => s
  changed : (source target : State) → σ → σ := fun _ _ s => s

def recorder : Observer (Array Event) where
  selected state symbols i s := s.push (.selected state symbols i)
  written tape previous symbol s := s.push (.written tape previous symbol)
  moved tape d s := s.push (.moved tape d)
  changed source target s := s.push (.changed source target)

variable {σ : Type}

def Action.applyWith (o : Observer σ) (a : Action) (index : Nat) (t : Tape) (s : σ) : Tape × σ :=
  match a.write with
  | none => (t.move a.move, o.moved index a.move s)
  | some c => ((t.write c).move a.move, o.moved index a.move (o.written index t.read c s))

/-- The instruction on the tapes from number `index` on, one after the other. -/
def Instruction.applyWith (o : Observer σ) (i : Instruction) : (index : Nat) → List Tape → σ → List Tape × σ
  | _, [], s => ([], s)
  | index, t :: ts, s =>
    let (t, s) := (i.actionFor index).applyWith o index t s
    let (ts, s) := applyWith o i (index + 1) ts s
    (t :: ts, s)

namespace Control

def stepWith (r : Control) (o : Observer σ) (c : Config) (s : σ) : Step × σ :=
  match r.next? c with
  | none => (.halted, s)
  | some i =>
    let s := o.selected c.state c.symbols i s
    if i.fits c.tapes.length then
      let (tapes, s) := i.applyWith o 0 c.tapes s
      match i.next with
      | none => (.done i ⟨c.state, tapes, c.steps + 1⟩, s)
      | some next => (.done i ⟨next, tapes, c.steps + 1⟩, o.changed c.state next s)
    else (.misfit i, s)

/-- A run of at most `n` steps. -/
def runWith (r : Control) (o : Observer σ) : (n : Nat) → Config → σ → (Ending × Config) × σ
  | 0, c, s => ((if r.isHalted c then .halted else .stepLimit, c), s)
  | n + 1, c, s =>
    match r.stepWith o c s with
    | (.halted, s) => ((.halted, c), s)
    | (.misfit _, s) => ((.misfit, c), s)
    | (.done _ next, s) => runWith r o n next s

/-- What is observed of the next step. -/
def events (r : Control) (c : Config) : List Event := (r.stepWith recorder c #[]).2.toList

/-- What is observed of a run of at most `n` steps. -/
def log (r : Control) (n : Nat) (c : Config) : List Event := (r.runWith recorder n c #[]).2.toList

end Control

end TapeMachine
