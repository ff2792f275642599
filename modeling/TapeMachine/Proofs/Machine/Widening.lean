import Mathlib.Data.List.Basic
import TapeMachine.Analysis
import TapeMachine.Graph.Elements
import TapeMachine.Proofs.Graph.Merging
import TapeMachine.Proofs.Machine.Observation

/-!
# One tape as several

A table for one tape can be written as a table for several tapes of which there is one: each symbol becomes
a rule with this symbol as its pattern, and no wildcard is declared.  Whatever is made of a table comes out
the same for both: its instructions, its graph, its warnings, and what a machine does.  Each layer is
compared by one equation, and the runs by induction from the equation for a step.
-/

namespace TapeMachine

/-! ## Instructions -/

namespace SingleInstruction

/-- The instruction for several tapes of which there is one. -/
def widened (i : SingleInstruction) : MultiInstruction where
  write := i.write.map fun c => [some c]
  moves := some [i.move]
  next := i.next

theorem fits_widened_iff {i : SingleInstruction} {n : Nat} : i.widened.fits n = true ↔ n = 1 := by
  rw [MultiInstruction.fits_iff]
  constructor
  · rintro ⟨-, hmoves⟩
    exact (hmoves _ rfl).symm
  · rintro rfl
    refine ⟨fun ws hws => ?_, fun ds hds => ?_⟩
    · obtain ⟨c, -, rfl⟩ := Option.map_eq_some_iff.1 hws
      rfl
    · cases hds
      rfl

end SingleInstruction

namespace Instruction

variable {c : Config}

def widened : Instruction → Instruction
  | .single i => .multi i.widened
  | .multi i => .multi i

theorem next_widened (i : Instruction) : i.widened.next = i.next := by
  cases i <;> rfl

theorem target_widened (i : Instruction) (state : State) : i.widened.target state = i.target state := by
  rw [target, target, next_widened]

theorem fits_widened (i : Instruction) (n : Nat) : i.widened.fits n = i.fits n := by
  cases i with
  | multi i => rfl
  | single i =>
    rw [Bool.eq_iff_iff]
    exact SingleInstruction.fits_widened_iff.trans beq_iff_eq.symm

theorem writeFor_widened_zero (i : Instruction) : i.widened.writeFor 0 = i.writeFor 0 := by
  cases i with
  | multi i => rfl
  | single i =>
    obtain ⟨write, move, next⟩ := i
    cases write <;> rfl

theorem moveFor_widened_zero (i : Instruction) : i.widened.moveFor 0 = i.moveFor 0 := by
  cases i <;> rfl

theorem actionFor_widened_zero (i : Instruction) : i.widened.actionFor 0 = i.actionFor 0 := by
  rw [actionFor, actionFor, writeFor_widened_zero, moveFor_widened_zero]

theorem execute_widened (i : Instruction) (hc : c.tapes.length = 1) : i.widened.execute c = i.execute c := by
  obtain ⟨t, ht⟩ := List.length_eq_one_iff.1 hc
  rw [execute, execute, target_widened, ht]
  simp only [List.mapIdx_cons, List.mapIdx_nil, actionFor_widened_zero]

end Instruction

/-- The event where the instruction is written for several tapes. -/
def Event.widened : Event → Event
  | .selected state symbols i => .selected state symbols i.widened
  | e => e

theorem Action.map_widened_events (a : Action) (index : Nat) (t : Tape) :
    (a.events index t).map Event.widened = a.events index t := by
  obtain ⟨write, move⟩ := a
  cases write <;> rfl

theorem Instruction.events_widened (i : Instruction) {c : Config} (hc : c.tapes.length = 1) :
    i.widened.events c = (i.events c).map Event.widened := by
  obtain ⟨t, ht⟩ := List.length_eq_one_iff.1 hc
  have hchanged : ∀ q : Option State, (q.toList.map (Event.changed c.state)).map Event.widened =
      q.toList.map (Event.changed c.state) := by
    intro q
    cases q <;> rfl
  simp only [events, next_widened, ht, List.mapIdx_cons, List.mapIdx_nil, List.flatten_cons, List.flatten_nil,
    List.append_nil, List.map_cons, List.map_append, actionFor_widened_zero, Action.map_widened_events,
    hchanged]
  rfl

/-! ## Tables -/

namespace SingleTable

/-- The row of rules for a row of symbols. -/
def widenedRow (row : Dict Symbol SingleInstruction) : List Rule :=
  row.entries.map fun x => ⟨[x.1], x.2.widened⟩

/-- The table for several tapes of which there is one. -/
def widened (t : SingleTable) : MultiTable where
  tapes := 1
  wildcard := none
  states := t.states.map fun _ row => row.map widenedRow

theorem get?_states_widened (t : SingleTable) (state : State) :
    t.widened.states.get? state = (t.states.get? state).map (·.map widenedRow) :=
  Dict.get?_map _ _ _

theorem rows_widened (t : SingleTable) :
    t.widened.states.values.filterMap id = (t.states.values.filterMap id).map widenedRow := by
  rw [widened, Dict.values_map, List.filterMap_map, List.map_filterMap]
  rfl

theorem find?_widenedRow (row : Dict Symbol SingleInstruction) (symbol : Symbol) :
    ((widenedRow row).find? (·.pattern.reads none [symbol])).map Rule.instruction =
      (row.get? symbol).map SingleInstruction.widened := by
  have hreads : ∀ x : Symbol × SingleInstruction, Pattern.reads none [x.1] [symbol] = (x.1 == symbol) := by
    intro x
    rw [Bool.eq_iff_iff, Pattern.reads_none_iff, beq_iff_eq, List.cons.injEq, and_iff_left rfl]
  simp only [widenedRow, List.find?_map, Option.map_map, Function.comp_def, hreads, Dict.get?_eq_find?]

/-- A rule of the row reads exactly one symbol. -/
theorem find?_widenedRow_eq_none (row : Dict Symbol SingleInstruction) {symbols : List Symbol}
    (h : symbols.length ≠ 1) : (widenedRow row).find? (·.pattern.reads none symbols) = none := by
  refine List.find?_eq_none.2 fun rule hrule hreads => h ?_
  obtain ⟨x, -, rfl⟩ := List.mem_map.1 hrule
  exact (Pattern.length_eq_of_reads hreads).symm

end SingleTable

/-- The transition where the instruction is written for several tapes. -/
def Transition.widened (r : Transition) : Transition := ⟨r.pattern, r.instruction.widened⟩

namespace Table

open SingleTable (widenedRow get?_states_widened rows_widened find?_widenedRow find?_widenedRow_eq_none)

theorem states_widened (t : SingleTable) : (multi t.widened).states = (single t).states :=
  Dict.keys_map _ _

theorem isHalting_widened (t : SingleTable) (state : State) :
    (multi t.widened).isHalting state = (single t).isHalting state := by
  rw [isHalting, isHalting, get?_states_widened]
  rcases t.states.get? state with _ | _ | row <;> rfl

theorem transitions_widened (t : SingleTable) (state : State) :
    (multi t.widened).transitions state = ((single t).transitions state).map Transition.widened := by
  rw [transitions, transitions, get?_states_widened]
  rcases t.states.get? state with _ | _ | row
  · rfl
  · rfl
  · simp [widenedRow, Transition.widened, Instruction.widened]

theorem lookup_widened (t : SingleTable) (state : State) (symbols : List Symbol) :
    (multi t.widened).lookup state symbols =
      ((single t).lookup state symbols).map Instruction.widened := by
  have hmulti : (multi t.widened).lookup state symbols = (t.states.get? state).join.bind fun row =>
      (((widenedRow row).find? (·.pattern.reads none symbols)).map Rule.instruction).map .multi := by
    rw [lookup, MultiTable.find?, get?_states_widened]
    rcases t.states.get? state with _ | _ | row
    · rfl
    · rfl
    · exact (Option.map_map _ _ _).symm
  rw [hmulti]
  rcases symbols with _ | ⟨symbol, _ | ⟨next, symbols⟩⟩
  · simp [lookup, find?_widenedRow_eq_none]
  · rw [lookup, SingleTable.get?, Option.map_bind, Option.map_bind]
    refine congrArg _ (funext fun row => ?_)
    simp only [find?_widenedRow, Function.comp_apply, Option.map_map]
    rfl
  · simp [lookup, find?_widenedRow_eq_none]

theorem successors_widened (t : SingleTable) (state : State) :
    (multi t.widened).successors state = (single t).successors state := by
  rw [successors, successors, get?_states_widened]
  rcases t.states.get? state with _ | _ | row
  · rfl
  · rfl
  · simp [widenedRow, Dict.values, SingleInstruction.widened]

theorem transitionCount_widened (t : SingleTable) :
    (multi t.widened).transitionCount = (single t).transitionCount := by
  have hsize : ∀ row : Dict Symbol SingleInstruction, (widenedRow row).length = row.size :=
    fun _ => List.length_map _
  simp only [transitionCount, rows_widened, List.foldr_map, hsize]

/-! ## Graphs -/

theorem multiLabel_widened (symbol : Symbol) (i : SingleInstruction) :
    multiLabel [symbol] i.widened = singleLabel symbol i := by
  obtain ⟨write, move, next⟩ := i
  cases write <;> rfl

theorem edge_widened (t : SingleTable) (source target : State) :
    (multi t.widened).edge source target = (single t).edge source target := by
  have hlabels : ∀ r ∈ (single t).transitions source, r.widened.label = r.label := by
    intro r hr
    obtain ⟨row, -, x, -, rfl⟩ := mem_transitions_single.1 hr
    rw [label_single, ← multiLabel_widened]
    exact label_multi [x.1] x.2.widened
  simp only [edge, edgeOf, transitions_widened, List.filter_map, List.map_map, Function.comp_def,
    Transition.widened, Instruction.target_widened, Edge.mk.injEq, true_and]
  refine List.map_congr_left fun r hr => ?_
  exact hlabels r (List.mem_filter.1 hr).1

theorem edges_widened (t : SingleTable) : (multi t.widened).graph.edges = (single t).graph.edges := by
  have hedges : (multi t.widened).edgesFrom = (single t).edgesFrom := by
    funext state
    have htargets : (multi t.widened).targets state = (single t).targets state := by
      have hsuccessors := successors_widened t state
      rw [successors_eq, successors_eq] at hsuccessors
      exact congrArg List.eraseDups hsuccessors
    show ((multi t.widened).targets state).map _ = ((single t).targets state).map _
    rw [htargets]
    exact List.map_congr_left fun target _ => edge_widened t state target
  rw [edges_graph, edges_graph, edges, edges, states_widened, hedges]

theorem map_vertices_widened (t : SingleTable) :
    (multi t.widened).graph.vertices.entries.map (fun x => (x.1, x.2.label, x.2.outgoing.isNone)) =
      (single t).graph.vertices.entries.map fun x => (x.1, x.2.label, x.2.outgoing.isNone) := by
  rw [StateGraph.map_vertices, StateGraph.map_vertices, states_widened, funext (isHalting_widened t)]

theorem nodes_widened (t : SingleTable) : (multi t.widened).graph.nodes = (single t).graph.nodes := by
  have hnodes : ∀ g : StateGraph, g.nodes =
      (g.vertices.entries.map fun x => (x.1, x.2.label, x.2.outgoing.isNone)).map fun x =>
        .node x.1 x.2.1 x.2.2 := by
    intro g
    rw [StateGraph.nodes, List.map_map]
    rfl
  rw [hnodes, hnodes, map_vertices_widened]

theorem elementsJson_widened (t : SingleTable) :
    (multi t.widened).graph.elementsJson = (single t).graph.elementsJson := by
  rw [StateGraph.elementsJson, StateGraph.elements, StateGraph.edgeElements, nodes_widened, edges_widened]
  rfl

/-! ## Warnings -/

theorem frontier_widened (t : SingleTable) (seen : List State) :
    (multi t.widened).frontier seen = (single t).frontier seen := by
  rw [frontier, frontier, funext (successors_widened t)]

theorem reach_widened (t : SingleTable) (n : Nat) (seen : List State) :
    (multi t.widened).reach n seen = (single t).reach n seen := by
  induction n generalizing seen with
  | zero => rfl
  | succ n ih => simp only [reach, frontier_widened, ih]

/-- Without a wildcard the symbols of the patterns are looked at, as those of the keys are. -/
theorem readable?_widened (t : SingleTable) : (multi t.widened).readable? = (single t).readable? := by
  have hrow : ∀ row : Dict Symbol SingleInstruction,
      (widenedRow row).filterMap (·.pattern.head?) = row.keys := by
    intro row
    rw [widenedRow, List.filterMap_map, Dict.keys, ← List.filterMap_eq_map]
    rfl
  have hsymbols : t.widened.firstSymbols = t.symbols := by
    rw [MultiTable.firstSymbols, rows_widened, ← List.flatMap_def, List.filterMap_flatMap, SingleTable.symbols]
    exact congrArg (List.flatMap · _) (funext hrow)
  exact congrArg some hsymbols

/-- Of the specification the warnings need only the table, the start, the blank and the input. -/
theorem warnings_widened (s : Spec) (t : SingleTable) (type : MachineType) (wild : Option Symbol) :
    { s with machineType := type, wild := wild, table := multi t.widened }.warnings =
      { s with table := single t }.warnings := by
  have hstates : { s with machineType := type, wild := wild, table := multi t.widened }.unreachableStates =
      { s with table := single t }.unreachableStates := by
    have hreachable : (multi t.widened).reachableFrom s.start = (single t).reachableFrom s.start := by
      rw [reachableFrom, reachableFrom, states_widened, reach_widened]
    rw [Spec.unreachableStates, Spec.unreachableStates]
    dsimp only
    rw [states_widened, hreachable]
  have hsymbols : { s with machineType := type, wild := wild, table := multi t.widened }.unreadableSymbols =
      { s with table := single t }.unreadableSymbols := by
    simp only [Spec.unreadableSymbols, Spec.inputSymbols, readable?_widened]
  rw [Spec.warnings, Spec.warnings, hstates, hsymbols]

end Table

/-! ## Machines -/

/-- The step where the instruction is written for several tapes. -/
def Step.widened : Step → Step
  | .halted => .halted
  | .misfit i => .misfit i.widened
  | .done i next => .done i.widened next

namespace Table

variable (t : SingleTable)

theorem length_tapes_of_next? {t : SingleTable} {c : Config} {i : Instruction}
    (h : (single t).control.next? c = some i) : c.tapes.length = 1 := by
  obtain ⟨symbol, j, hsymbols, -, -⟩ := lookup_single_eq_some_iff.1 h
  rw [← Config.length_symbols, hsymbols, List.length_singleton]

theorem next?_widened (c : Config) :
    (multi t.widened).control.next? c = ((single t).control.next? c).map Instruction.widened :=
  lookup_widened t c.state c.symbols

theorem isHalted_widened (c : Config) :
    (multi t.widened).control.isHalted c = (single t).control.isHalted c := by
  rw [Control.isHalted, Control.isHalted, next?_widened, Option.isNone_map]

theorem step_widened (c : Config) :
    (multi t.widened).control.step c = ((single t).control.step c).widened := by
  cases hi : (single t).control.next? c with
  | none =>
    rw [Control.step, Control.step, next?_widened, hi]
    rfl
  | some i =>
    have hlength := length_tapes_of_next? hi
    have hnext : (multi t.widened).control.next? c = some i.widened := by rw [next?_widened, hi]; rfl
    rw [Control.step_of_next? hi, Control.step_of_next? hnext, Instruction.fits_widened,
      Instruction.execute_widened i hlength]
    cases i.fits c.tapes.length <;> rfl

theorem events_widened (c : Config) :
    (multi t.widened).control.events c = ((single t).control.events c).map Event.widened := by
  rw [Control.events_eq, Control.events_eq, step_widened]
  cases hs : (single t).control.step c with
  | halted => rfl
  | misfit i => rfl
  | done i next =>
    obtain ⟨hi, -, -⟩ := Control.step_eq_done_iff.1 hs
    exact Instruction.events_widened i (length_tapes_of_next? hi)

theorem run_widened (n : Nat) (c : Config) :
    (multi t.widened).control.run n c = (single t).control.run n c := by
  induction n generalizing c with
  | zero => rw [Control.run_zero, Control.run_zero, isHalted_widened]
  | succ n ih =>
    rw [Control.run, Control.run, step_widened]
    cases (single t).control.step c with
    | halted => rfl
    | misfit i => rfl
    | done i next => exact ih next

theorem attempts_widened (n : Nat) (c : Config) :
    (multi t.widened).control.attempts n c = (single t).control.attempts n c := by
  have htrace : ∀ n c, (multi t.widened).control.trace n c = (single t).control.trace n c := by
    intro n
    induction n with
    | zero => exact fun _ => rfl
    | succ n ih =>
      intro c
      rw [Control.trace, Control.trace, step_widened]
      cases (single t).control.step c with
      | halted => rfl
      | misfit i => rfl
      | done i next => exact congrArg (next :: ·) (ih next)
  rw [Control.attempts, Control.attempts, htrace]

theorem perform_widened (c : Config) (o : Operation) :
    (multi t.widened).control.perform c o = (single t).control.perform c o := by
  cases o with
  | step =>
    rw [Control.perform, Control.perform, step_widened]
    cases (single t).control.step c <;> rfl
  | run n => rw [Control.perform, Control.perform, run_widened]
  | edit tape e => rfl

theorem session_widened (os : List Operation) (c : Config) :
    (multi t.widened).control.session os c = (single t).control.session os c := by
  induction os generalizing c with
  | nil => rfl
  | cons o os ih => simp only [Control.session, perform_widened, ih]

theorem attemptsAll_widened (os : List Operation) (c : Config) :
    (multi t.widened).control.attemptsAll os c = (single t).control.attemptsAll os c := by
  have hattempts : ∀ c o, (multi t.widened).control.attemptsOf c o = (single t).control.attemptsOf c o := by
    intro c o
    cases o with
    | step => rfl
    | run n => exact attempts_widened t n c
    | edit tape e => rfl
  induction os generalizing c with
  | nil => rfl
  | cons o os ih => simp only [Control.attemptsAll, perform_widened, hattempts, ih]

theorem observedAll_widened (os : List Operation) (c : Config) :
    (multi t.widened).control.observedAll os c =
      ((single t).control.observedAll os c).map Event.widened := by
  have hevents : (multi t.widened).control.events =
      fun d => ((single t).control.events d).map Event.widened := funext (events_widened t)
  rw [Control.observedAll_eq, Control.observedAll_eq, attemptsAll_widened, List.map_flatMap, hevents]

/-- A table for one tape and the same table for several tapes of which there is one: machines with them start
alike, give the same answers, get into the same configurations and show the same events, whatever is done
with them; the states have the same successors and are halting alike, and there are as many transitions; the
graphs have the same vertices, the same edges with the same labels, and the same list of elements; and two
specifications that differ in nothing else give the same warnings. -/
theorem widened_agrees (t : SingleTable) :
    (∀ start tapes,
      (multi t.widened).control.start start tapes = (single t).control.start start tapes) ∧
    (∀ os c, (multi t.widened).control.session os c = (single t).control.session os c ∧
      (multi t.widened).control.observedAll os c =
        ((single t).control.observedAll os c).map Event.widened) ∧
    (∀ state, (multi t.widened).successors state = (single t).successors state ∧
      (multi t.widened).isHalting state = (single t).isHalting state) ∧
    (multi t.widened).states = (single t).states ∧
    (multi t.widened).transitionCount = (single t).transitionCount ∧
    (multi t.widened).graph.vertices.entries.map (fun x => (x.1, x.2.outgoing.isNone)) =
      (single t).graph.vertices.entries.map (fun x => (x.1, x.2.outgoing.isNone)) ∧
    (multi t.widened).graph.edges = (single t).graph.edges ∧
    (multi t.widened).graph.elementsJson = (single t).graph.elementsJson ∧
    ∀ (s : Spec) type wild,
      { s with machineType := type, wild := wild, table := multi t.widened }.warnings =
        { s with table := single t }.warnings := by
  have hvertices := congrArg (List.map fun x => (x.1, x.2.2)) (map_vertices_widened t)
  rw [List.map_map, List.map_map] at hvertices
  exact ⟨fun _ _ => rfl, fun os c => ⟨session_widened t os c, observedAll_widened t os c⟩,
    fun state => ⟨successors_widened t state, isHalting_widened t state⟩, states_widened t,
    transitionCount_widened t, hvertices, edges_widened t, elementsJson_widened t,
    fun s type wild => warnings_widened s t type wild⟩

end Table

end TapeMachine
