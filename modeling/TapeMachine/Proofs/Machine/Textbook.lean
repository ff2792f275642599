import Mathlib.Data.List.Find
import Mathlib.Logic.Function.Iterate
import TapeMachine.Session

/-!
# The textbook machine

A textbook machine with `k` tapes has a state, `k` functions from the integers to symbols, and `k` heads,
each at an integer.  In one step it reads all its heads, then every tape is written under its head, if a
symbol is given, and every head moves by at most one cell; where no transition applies nothing happens.

`View` is the textbook configuration of a machine: its tapes as functions, and the places of its heads.
The main statement is that any number of steps of a machine commutes with the view, and that a step is
refused exactly where the textbook machine is stuck.
-/

namespace TapeMachine.Textbook

@[ext] structure Config (k : Nat) where
  state : State
  cell : Fin k → Int → Symbol
  head : Fin k → Int

/-- What a transition does on each tape, and the state it leads to. -/
structure Action (k : Nat) where
  write : Fin k → Option Symbol
  shift : Fin k → Int
  next : Option State

variable {k : Nat}

/-- How far a head goes to the right. -/
def shiftOf : Direction → Int
  | .left => -1
  | .right => 1
  | .stay => 0

/-- An instruction for one tape says what is done on it.  An instruction for several tapes may have a list of
writes, of which the one of a tape need not give a symbol, and may have a list of moves; where there are no
moves the heads stay. -/
def Action.ofInstruction (k : Nat) : Instruction → Action k
  | .single i => { write := fun _ => i.write, shift := fun _ => shiftOf i.move, next := i.next }
  | .multi i =>
    { write := fun j => i.write.elim none fun writes => writes.getD j none
      shift := fun j => i.moves.elim 0 fun moves => (moves[j.val]?).elim 0 shiftOf
      next := i.next }

/-- The symbols under the heads. -/
def Config.read (T : Config k) (j : Fin k) : Symbol := T.cell j (T.head j)

def Config.apply (T : Config k) (a : Action k) : Config k where
  state := a.next.getD T.state
  cell j :=
    match a.write j with
    | none => T.cell j
    | some c => Function.update (T.cell j) (T.head j) c
  head j := T.head j + a.shift j

/-! ## Transitions -/

/-- A pattern applies if it has a symbol for each tape, which is the wildcard or the symbol read. -/
def Applies (wildcard : Option Symbol) (p : Pattern) (read : Fin k → Symbol) : Prop :=
  p.length = k ∧ ∀ j : Fin k, p[j.val]? = wildcard ∨ p[j.val]? = some (read j)

instance (wildcard : Option Symbol) (p : Pattern) (read : Fin k → Symbol) :
    Decidable (Applies wildcard p read) :=
  inferInstanceAs (Decidable (_ ∧ _))

/-- The transition function: the entry of the symbol, or the first rule that applies. -/
def transition : (t : Table) → State → (Fin t.tapes → Symbol) → Option Instruction
  | .single t, state, read =>
    ((t.states.get? state).join.bind (·.get? (read ⟨0, Nat.one_pos⟩))).map .single
  | .multi t, state, read =>
    ((t.states.get? state).join.bind (·.find? fun rule => Applies t.wildcard rule.pattern read)).map
      fun rule => .multi rule.instruction

/-- The next configuration, if some transition applies. -/
def next? (t : Table) (T : Config t.tapes) : Option (Config t.tapes) :=
  (transition t T.state T.read).map fun i => T.apply (.ofInstruction t.tapes i)

def step (t : Table) (T : Config t.tapes) : Config t.tapes := (next? t T).getD T

theorem reads_iff_applies {w : Option Symbol} {p : Pattern} {read : Fin k → Symbol} :
    p.reads w (List.ofFn read) = true ↔ Applies w p read := by
  rw [Pattern.reads_iff, List.length_ofFn, Applies]
  refine and_congr_right fun hp => ⟨fun h j => ?_, fun h j hj => ?_⟩
  · simpa using h j (hp ▸ j.isLt)
  · simpa [hp ▸ hj] using h ⟨j, hp ▸ hj⟩

theorem lookup_ofFn (t : Table) (state : State) (read : Fin t.tapes → Symbol) :
    t.lookup state (List.ofFn read) = transition t state read := by
  cases t with
  | single t => rfl
  | multi t =>
    have h : (fun rule : Rule => rule.pattern.reads t.wildcard (List.ofFn read)) =
        fun rule => decide (Applies t.wildcard rule.pattern read) := by
      funext rule
      rw [Bool.eq_iff_iff, decide_eq_true_iff]
      exact reads_iff_applies
    simp only [Table.lookup, MultiTable.find?, transition]
    rw [h]

/-! ## Actions -/

theorem offset_eq_shiftOf (d : Direction) : d.offset = shiftOf d := by
  cases d <;> rfl

theorem write_ofInstruction (i : Instruction) (j : Fin k) :
    (Action.ofInstruction k i).write j = i.writeFor j := by
  cases i with
  | single i => rfl
  | multi i =>
    show i.write.elim none (fun writes => writes.getD j none) = (i.write.bind (·[j.val]?)).join
    cases i.write with
    | none => rfl
    | some writes =>
      rw [Option.elim_some, List.getD_eq_getElem?_getD, Option.bind_some]
      cases writes[j.val]? <;> rfl

theorem shift_ofInstruction (i : Instruction) (j : Fin k) :
    (Action.ofInstruction k i).shift j = (i.moveFor j).offset := by
  rw [offset_eq_shiftOf]
  cases i with
  | single i => rfl
  | multi i =>
    show i.moves.elim 0 (fun moves => (moves[j.val]?).elim 0 shiftOf) =
      shiftOf ((i.moves.bind (·[j.val]?)).getD .stay)
    cases i.moves with
    | none => rfl
    | some moves =>
      rw [Option.elim_some, Option.bind_some]
      cases moves[j.val]? <;> rfl

theorem next_ofInstruction (i : Instruction) : (Action.ofInstruction k i).next = i.next := by
  cases i <;> rfl

/-! ## The view of a machine -/

def view (c : TapeMachine.Config) (h : c.tapes.length = k) : Config k where
  state := c.state
  cell j := (c.tapes.get (j.cast h.symm)).cell
  head j := (c.tapes.get (j.cast h.symm)).position

/-- A new tape is seen as its input from cell zero on with the blank around it, and the head on cell zero. -/
theorem view_new (c : TapeMachine.Config) (h : c.tapes.length = k) (j : Fin k) {blank : Symbol}
    {input : List Symbol} (hj : c.tapes.get (j.cast h.symm) = Tape.new blank input) :
    (view c h).head j = 0 ∧
      ∀ i, (view c h).cell j i = if 0 ≤ i then input.getD i.toNat blank else blank := by
  simp only [view, hj]
  exact ⟨Tape.position_new blank input, Tape.cell_new blank input⟩

theorem symbols_eq_ofFn (c : TapeMachine.Config) (h : c.tapes.length = k) :
    c.symbols = List.ofFn (view c h).read := by
  refine List.ext_getElem (by simp [h]) fun j hj _ => ?_
  simp [TapeMachine.Config.symbols, Config.read, view]

theorem view_execute (i : Instruction) (c : TapeMachine.Config) (h : c.tapes.length = k)
    (h' : (i.execute c).tapes.length = k) :
    view (i.execute c) h' = (view c h).apply (.ofInstruction k i) := by
  have hget : ∀ j : Fin k, (i.execute c).tapes.get (j.cast h'.symm) =
      (i.actionFor j).apply (c.tapes.get (j.cast h.symm)) := by
    intro j
    exact List.getElem_mapIdx
  refine Config.ext ?_ ?_ ?_
  · show i.next.getD c.state = (Action.ofInstruction k i).next.getD c.state
    rw [next_ofInstruction]
  · funext j p
    simp only [view, hget, Action.cell_apply, Config.apply, write_ofInstruction]
    cases hw : i.writeFor j with
    | none => simp [Instruction.actionFor, hw]
    | some x => simp [Instruction.actionFor, hw, Function.update_apply]
  · funext j
    simp only [view, hget, TapeMachine.Action.position_apply, Config.apply, shift_ofInstruction]
    rfl

/-! ## Steps and runs -/

section
variable {t : Table}

theorem control_next? (c : TapeMachine.Config) (h : c.tapes.length = t.tapes) :
    t.control.next? c = transition t (view c h).state (view c h).read := by
  rw [Control.next?, symbols_eq_ofFn c h]
  exact lookup_ofFn t c.state _

/-- A step takes the view one step further; a step that is refused changes nothing. -/
theorem perform_step (ht : t.Fitting) (c : TapeMachine.Config) (h : c.tapes.length = t.tapes) :
    ∃ (c' : TapeMachine.Config) (h' : c'.tapes.length = t.tapes),
      t.control.perform c .step = (.stepped (next? t (view c h)).isSome, c') ∧
        view c' h' = step t (view c h) ∧ (next? t (view c h) = none → c' = c) := by
  cases hn : transition t (view c h).state (view c h).read with
  | none =>
    have hstep : t.control.step c = .halted := by
      rw [Control.step_eq_halted_iff, Control.isHalted, control_next? c h, hn, Option.isNone_none]
    refine ⟨c, h, ?_, ?_, fun _ => rfl⟩
    · simp [Control.perform, hstep, next?, hn]
    · simp [step, next?, hn]
  | some i =>
    have hstep : t.control.step c = .done i (i.execute c) :=
      ht.control.step_of_next? h ((control_next? c h).trans hn)
    have h' : (i.execute c).tapes.length = t.tapes := (Instruction.length_tapes_execute i c).trans h
    refine ⟨i.execute c, h', ?_, ?_, fun hnone => ?_⟩
    · simp [Control.perform, hstep, next?, hn]
    · rw [view_execute i c h h']
      simp [step, next?, hn]
    · simp [next?, hn] at hnone

theorem session_steps (ht : t.Fitting) (n : Nat) :
    ∀ (c : TapeMachine.Config) (h : c.tapes.length = t.tapes),
      ∃ (last : TapeMachine.Config) (h' : last.tapes.length = t.tapes),
        (t.control.session (List.replicate n .step) c).2 = last ∧
          .misfit ∉ (t.control.session (List.replicate n .step) c).1 ∧
          view last h' = (step t)^[n] (view c h) := by
  induction n with
  | zero => exact fun c h => ⟨c, h, rfl, List.not_mem_nil, rfl⟩
  | succ n ih =>
    intro c h
    obtain ⟨c', h', hp, hv, -⟩ := perform_step ht c h
    obtain ⟨last, hl, hlast, hanswers, hview⟩ := ih c' h'
    have hne : (t.control.perform c .step).1 ≠ .misfit := by
      rw [hp]
      exact Answer.noConfusion
    rw [List.replicate_succ, Control.session_cons_of_ne_misfit _ hne, hp]
    refine ⟨last, hl, hlast, ?_, ?_⟩
    · simpa using hanswers
    · rw [hview, hv, Function.iterate_succ_apply]

/-- Any number of steps of a machine is as many steps of the textbook machine, and a step is refused,
changing nothing, exactly where the textbook machine is stuck. -/
theorem session_steps_textbook (ht : t.Fitting) (state : State) (tapes : List Tape)
    (h : tapes.length = t.tapes) (n : Nat) :
    t.control.start state tapes = .ok ⟨state, tapes, 0⟩ ∧
      (∀ (j : Fin t.tapes) (blank : Symbol) (input : List Symbol),
        tapes.get (j.cast h.symm) = Tape.new blank input →
          (view ⟨state, tapes, 0⟩ h).head j = 0 ∧
            ∀ i, (view ⟨state, tapes, 0⟩ h).cell j i =
              if 0 ≤ i then input.getD i.toNat blank else blank) ∧
      ∃ (last : TapeMachine.Config) (h' : last.tapes.length = t.tapes),
        (t.control.session (List.replicate n .step) ⟨state, tapes, 0⟩).2 = last ∧
          .misfit ∉ (t.control.session (List.replicate n .step) ⟨state, tapes, 0⟩).1 ∧
          view last h' = (step t)^[n] (view ⟨state, tapes, 0⟩ h) ∧
          ((t.control.perform last .step).1 = .stepped false ↔ next? t (view last h') = none) ∧
          ((t.control.perform last .step).1 = .stepped false →
            (t.control.perform last .step).2 = last) := by
  refine ⟨if_pos h.symm, fun j _ _ hj => view_new ⟨state, tapes, 0⟩ h j hj, ?_⟩
  obtain ⟨last, h', hlast, hanswers, hview⟩ := session_steps ht n ⟨state, tapes, 0⟩ h
  obtain ⟨c', -, hp, -, hstay⟩ := perform_step ht last h'
  have hiff : (t.control.perform last .step).1 = .stepped false ↔ next? t (view last h') = none := by
    rw [hp]
    simp
  refine ⟨last, h', hlast, hanswers, hview, hiff, fun hf => ?_⟩
  rw [hp]
  exact hstay (hiff.1 hf)

end

/-- Copies the ones of the first tape to the left end of the second, backwards. -/
def mirror : Table := .multi {
  tapes := 2
  wildcard := some '*'
  states := Dict.ofList [
    ("copy", some [
      ⟨['1', '*'], ⟨some [none, some '1'], some [.right, .left], none⟩⟩,
      ⟨['*', '*'], ⟨none, none, some "done"⟩⟩]),
    ("done", none)] }

/-- Of four steps the fourth is refused. -/
theorem session_steps_textbook_mirror :
    mirror.Fitting ∧ [Tape.new '_' ['1', '1'], Tape.new ' ' []].length = mirror.tapes ∧
      ∃ (last : TapeMachine.Config) (h : last.tapes.length = mirror.tapes),
        mirror.control.session (List.replicate 4 .step)
          ⟨"copy", [Tape.new '_' ['1', '1'], Tape.new ' ' []], 0⟩ =
            ([.stepped true, .stepped true, .stepped true, .stepped false], last) ∧
        last.state = "done" ∧ last.tapes.map Tape.position = [2, -2] ∧
        last.tapes.map Tape.contents = [['1', '1', '_'], [' ', '1', '1']] ∧
        ∃ T, (step mirror)^[4] (view ⟨"copy", [Tape.new '_' ['1', '1'], Tape.new ' ' []], 0⟩ rfl) = T ∧
          T = view last h ∧ T.state = "done" ∧ List.ofFn T.head = [2, -2] ∧
          List.ofFn (fun j => [-2, -1, 0, 1, 2].map (T.cell j)) =
            [['_', '_', '1', '1', '_'], [' ', '1', '1', ' ', ' ']] ∧
          next? mirror T = none := by
  have hfit : mirror.Fitting := by decide
  obtain ⟨-, -, last, h, hlast, -, hview, hstuck, -⟩ :=
    session_steps_textbook hfit "copy" [Tape.new '_' ['1', '1'], Tape.new ' ' []] rfl 4
  subst hlast
  refine ⟨hfit, rfl, _, h, ?_, ?_, ?_, ?_, _, hview.symm, rfl, ?_, ?_, ?_, hstuck.1 ?_⟩
  all_goals rfl

end TapeMachine.Textbook
