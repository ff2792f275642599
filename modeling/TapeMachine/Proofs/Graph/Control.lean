import Mathlib.Data.List.Basic
import TapeMachine.Proofs.Graph.Merging
import TapeMachine.Session

/-!
# Driving a machine through the graph

A machine can be driven by the graph of a table as well as by the table itself.  The graph finds the same
instruction, and the number kept with it is that of the edge from the state to the state the instruction
leads to: the edges before it are those of the states declared earlier, and of the earlier targets of the
same state.  So the two controls are equal, and nothing that is done with a machine tells them apart.
-/

namespace TapeMachine

/-! ## Numbers of edges -/

namespace Table

variable {t : Table} {state target : State}

theorem mem_targets :
    target ∈ t.targets state ↔ ∃ r ∈ t.transitions state, r.instruction.target state = target := by
  rw [targets, mem_targetsOf]

theorem exists_dropWhile_eq_cons {states : List State} (hs : state ∈ states) :
    ∃ later, states.dropWhile (· != state) = state :: later := by
  induction states with
  | nil => cases hs
  | cons q states ih =>
    by_cases hq : q = state
    · exact ⟨states, by simp [hq]⟩
    · obtain ⟨later, hlater⟩ := ih ((List.mem_cons.1 hs).resolve_left (Ne.symm hq))
      exact ⟨later, by simpa [hq] using hlater⟩

/-- The edges of a state follow those of the states declared before it. -/
theorem exists_edges_eq_append (hs : state ∈ t.states) :
    ∃ rest, t.edges =
      (t.states.takeWhile (· != state)).flatMap t.edgesFrom ++ (t.edgesFrom state ++ rest) := by
  obtain ⟨later, hlater⟩ := exists_dropWhile_eq_cons hs
  refine ⟨later.flatMap t.edgesFrom, ?_⟩
  rw [edges, ← List.flatMap_cons, ← hlater, ← List.flatMap_append, List.takeWhile_append_dropWhile]

theorem getElem?_edges (hs : state ∈ t.states) (ht : target ∈ t.targets state) :
    t.edges[edgeNumber (t.firstEdge state) (t.targets state) target]? = some (t.edge state target) := by
  obtain ⟨rest, hedges⟩ := exists_edges_eq_append hs
  have hindex : (t.targets state).idxOf target < (t.edgesFrom state).length := by
    rw [edgesFrom, length_edgesOf]
    exact List.idxOf_lt_length_of_mem ht
  rw [hedges, edgeNumber, firstEdge, List.getElem?_append_right (Nat.le_add_right _ _),
    Nat.add_sub_cancel_left, List.getElem?_append_left hindex, edgesFrom, edgesOf, List.getElem?_map]
  exact congrArg (Option.map (t.edge state)) (List.getElem?_idxOf ht)

/-! ## Looking up -/

/-- What the graph finds for an instruction of a state. -/
def matchOf (t : Table) (state : State) (i : Instruction) : Match where
  instruction := i
  edge := t.edge state (i.target state)
  index := edgeNumber (t.firstEdge state) (t.targets state) (i.target state)

theorem getElem?_edges_matchOf (hs : state ∈ t.states) {r : Transition} (hr : r ∈ t.transitions state) :
    t.edges[(t.matchOf state r.instruction).index]? = some (t.matchOf state r.instruction).edge :=
  getElem?_edges hs (mem_targets.2 ⟨r, hr, rfl⟩)

end Table

namespace StateGraph

open Table (matchOf)

variable {state : State} {symbols : List Symbol}

/-- What leaves a vertex; nothing does where there is no such vertex. -/
def outgoing? (g : StateGraph) (state : State) : Option Outgoing :=
  (g.vertices.get? state).bind (·.outgoing)

theorem find?_eq_bind (g : StateGraph) (state : State) (symbols : List Symbol) :
    g.find? state symbols =
      ((g.outgoing? state).bind (·.find? g.wildcard symbols)).bind fun e =>
        g.edges[e.edge]?.map fun edge => ⟨e.instruction, edge, e.edge⟩ := by
  simp only [find?, outgoing?, Option.bind_eq_bind, Option.bind_assoc, Option.map_eq_bind]
  rfl

theorem outgoing?_single (t : SingleTable) (state : State) :
    (Table.single t).graph.outgoing? state = (t.states.get? state).join.map fun row =>
      .single (row.map fun _ i => ⟨i, ((Table.single t).matchOf state (.single i)).index⟩) := by
  rw [outgoing?, Table.vertices_graph, Table.vertices, Dict.get?_map]
  cases t.states.get? state <;> rfl

theorem outgoing?_multi (t : MultiTable) (state : State) :
    (Table.multi t).graph.outgoing? state = (t.states.get? state).join.map fun rules =>
      .multi (rules.map fun rule => (rule.pattern,
        ⟨rule.instruction, ((Table.multi t).matchOf state (.multi rule.instruction)).index⟩)) := by
  rw [outgoing?, Table.vertices_graph, Table.vertices, Dict.get?_map]
  cases t.states.get? state <;> rfl

theorem bind_outgoing?_graph (t : Table) (state : State) (symbols : List Symbol) :
    (t.graph.outgoing? state).bind (·.find? t.wildcard symbols) =
      (t.lookup state symbols).map fun i => ⟨i, (t.matchOf state i).index⟩ := by
  cases t with
  | single t =>
    rw [outgoing?_single, Option.bind_map]
    cases hrow : (t.states.get? state).join with
    | none =>
      match symbols with
      | [] => rfl
      | [symbol] => simp [Table.lookup, SingleTable.get?, hrow]
      | _ :: _ :: _ => rfl
    | some row =>
      match symbols with
      | [] => rfl
      | [symbol] => simp [Table.lookup, SingleTable.get?, hrow, Outgoing.find?, Function.comp_def]
      | _ :: _ :: _ => rfl
  | multi t =>
    rw [outgoing?_multi, Option.bind_map]
    cases hrules : (t.states.get? state).join with
    | none => simp [Table.lookup, MultiTable.find?, hrules]
    | some rules =>
      simp [Table.lookup, MultiTable.find?, hrules, Outgoing.find?, List.find?_map, Function.comp_def,
        Table.wildcard]

/-- The graph finds what the table looks up, with an edge that is there. -/
theorem find?_graph (t : Table) (state : State) (symbols : List Symbol) :
    t.graph.find? state symbols = (t.lookup state symbols).map (t.matchOf state) := by
  rw [find?_eq_bind]
  change ((t.graph.outgoing? state).bind (·.find? t.wildcard symbols)).bind _ = _
  rw [bind_outgoing?_graph, Table.edges_graph]
  cases h : t.lookup state symbols with
  | none => rfl
  | some i =>
    obtain ⟨r, hr, rfl⟩ := Table.exists_transition_of_lookup h
    have hedge := Table.getElem?_edges_matchOf (Table.mem_states_of_lookup h) hr
    simp only [Option.map_some, Option.bind_some, hedge]
    rfl

theorem control_graph (t : Table) : t.graph.control = t.control := by
  have hlookup : t.graph.control.lookup = t.control.lookup := by
    funext state symbols
    change (t.graph.find? state symbols).map (·.instruction) = t.lookup state symbols
    rw [find?_graph, Option.map_map]
    exact Option.map_id'
  exact congrArg (Control.mk t.tapes) hlookup

/-! ## Driving -/

/-- A machine is driven by the graph of a table as by the table.  For a state and any symbols the graph finds
something if and only if the table does, and then the same instruction, with the edge that has the number
found and goes from the state to the one the instruction leads to.  So a machine gives the same answers,
gets into the same configurations and shows the same events, whatever is done with it. -/
theorem graph_drives (t : Table) :
    (∀ state symbols,
      (t.graph.find? state symbols).isSome = (t.lookup state symbols).isSome ∧
      ∀ m, t.graph.find? state symbols = some m →
        t.lookup state symbols = some m.instruction ∧ t.graph.edges[m.index]? = some m.edge ∧
          m.edge.source = state ∧ m.edge.target = m.instruction.next.getD state) ∧
    ∀ start tapes, t.graph.control.start start tapes = t.control.start start tapes ∧
      ∀ os c, t.graph.control.session os c = t.control.session os c ∧
        t.graph.control.observedAll os c = t.control.observedAll os c := by
  refine ⟨fun state symbols => ⟨?_, fun m hm => ?_⟩, fun start tapes => ?_⟩
  · rw [find?_graph, Option.isSome_map]
  · rw [find?_graph] at hm
    obtain ⟨i, hi, rfl⟩ := Option.map_eq_some_iff.1 hm
    obtain ⟨r, hr, rfl⟩ := Table.exists_transition_of_lookup hi
    rw [Table.edges_graph]
    exact ⟨hi, Table.getElem?_edges_matchOf (Table.mem_states_of_lookup hi) hr, rfl, rfl⟩
  · rw [control_graph]
    exact ⟨rfl, fun _ _ => ⟨rfl, rfl⟩⟩

/-- A table with a pattern and an instruction of the wrong width, and with a next state that it does not
declare. -/
def ragged : Table := .multi {
  tapes := 2
  wildcard := some '*'
  states := ⟨[
    ("b", none),
    ("a", some [
      ⟨['*'], ⟨none, none, some "b"⟩⟩,
      ⟨['*', '1'], ⟨some [some '0'], none, some "c"⟩⟩])], by decide⟩ }

theorem graph_drives_ragged :
    ∃ m, ragged.graph.find? "a" ['0', '1'] = some m ∧
      ragged.lookup "a" ['0', '1'] = some m.instruction ∧ ragged.graph.edges[m.index]? = some m.edge ∧
      m.edge.source = "a" ∧ m.edge.target = m.instruction.next.getD "a" := by
  obtain ⟨m, hm⟩ : ∃ m, ragged.graph.find? "a" ['0', '1'] = some m :=
    Option.isSome_iff_exists.1 (by decide)
  exact ⟨m, hm, ((graph_drives ragged).1 "a" ['0', '1']).2 m hm⟩

end StateGraph

end TapeMachine
