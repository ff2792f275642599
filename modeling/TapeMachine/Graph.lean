import TapeMachine.Machine

/-!
# State graphs

The graph of a table has a vertex for each state and one edge for each ordered pair of states between
which some transition leads; the edge is labelled with all of these transitions.  The edges are numbered
state by state and, for one state, in the order in which its transitions first lead to their targets.
Every vertex keeps its transitions with the numbers of their edges, so that the graph can control a
machine as well as the table can.
-/

namespace TapeMachine

structure Edge where
  source : State
  target : State
  /-- One for each transition, in order of declaration. -/
  labels : List String
deriving DecidableEq

/-- An instruction and the number of the edge it follows. -/
structure Entry (ι : Type) where
  instruction : ι
  edge : Nat
deriving DecidableEq

inductive Outgoing where
  | single (entries : Dict Symbol (Entry SingleInstruction))
  | multi (entries : List (Pattern × Entry MultiInstruction))
deriving DecidableEq

structure Vertex where
  label : String
  /-- Nothing, for a halting state. -/
  outgoing : Option Outgoing
deriving DecidableEq

structure StateGraph where
  vertices : Dict State Vertex
  edges : List Edge
  tapes : Nat
  wildcard : Option Symbol
deriving DecidableEq

/-! ## Collecting the edges -/

/-- What an instruction for one tape reads, writes and moves. -/
def singleLabel (symbol : Symbol) (i : SingleInstruction) : String :=
  String.ofList [symbol.visible, ' ', '\u2192', ' ', Symbol.visible (i.write.getD symbol), ',', i.move.letter]

/-- What an instruction for several tapes reads, writes and moves, tape by tape. -/
def multiLabel (pattern : Pattern) (i : MultiInstruction) : String :=
  let reads := pattern.map Symbol.visible
  let writes := pattern.mapIdx fun tape c => Symbol.visible ((i.writeFor tape).getD c)
  let moves := (List.range pattern.length).map fun tape => (i.moveFor tape).letter
  String.ofList (reads ++ [' ', '\u2192', ' '] ++ writes ++ ',' :: moves)

def Edge.addLabel (label : String) (e : Edge) : Edge := { e with labels := e.labels ++ [label] }

/-- All edges so far, and the numbers of those that leave the state in hand, by their targets. -/
structure EdgeBuilder where
  edges : List Edge
  byTarget : Dict State Nat

namespace EdgeBuilder

/-- A state is taken in hand: no edge leaves it yet. -/
def start (edges : List Edge) : EdgeBuilder := ⟨edges, .empty⟩

/-- The number of the edge to a target; where there is none, one without labels is made. -/
def indexFor (b : EdgeBuilder) (source target : State) : Nat × EdgeBuilder :=
  match b.byTarget.get? target with
  | some index => (index, b)
  | none =>
    (b.edges.length,
      ⟨b.edges ++ [⟨source, target, []⟩], b.byTarget.insert target b.edges.length⟩)

/-- Puts a label on the edge to a target, and tells the number of that edge. -/
def add (b : EdgeBuilder) (source target : State) (label : String) : Nat × EdgeBuilder :=
  let (index, b) := b.indexFor source target
  (index, { b with edges := b.edges.modify index (Edge.addLabel label) })

/-- Adds the transitions of a state one after the other, each with the number of its edge. -/
def addAll {α : Type} (source : State) (next : α → Option State) (label : α → String) (b : EdgeBuilder) :
    List α → List (α × Nat) × EdgeBuilder
  | [] => ([], b)
  | x :: xs =>
    let (index, b) := b.add source ((next x).getD source) (label x)
    let (numbered, b) := addAll source next label b xs
    ((x, index) :: numbered, b)

end EdgeBuilder

/-! ## The graph of a table -/

/-- The vertices and edges of some states. -/
abbrev Drawing := Dict State Vertex × List Edge

namespace Outgoing

/-- What leaves a state of a table for one tape, and the edges with those of the state. -/
def ofSymbols (state : State) (row : Dict Symbol SingleInstruction) (edges : List Edge) :
    Outgoing × List Edge :=
  let (numbered, b) :=
    EdgeBuilder.addAll state (fun x => x.2.next) (fun x => singleLabel x.1 x.2) (.start edges) row.entries
  (.single (.ofList (numbered.map fun (x, edge) => (x.1, ⟨x.2, edge⟩))), b.edges)

/-- What leaves a state of a table for several tapes, and the edges with those of the state. -/
def ofRules (state : State) (rules : List Rule) (edges : List Edge) : Outgoing × List Edge :=
  let (numbered, b) :=
    EdgeBuilder.addAll state (fun rule => rule.instruction.next)
      (fun rule => multiLabel rule.pattern rule.instruction) (.start edges) rules
  (.multi (numbered.map fun (rule, edge) => (rule.pattern, ⟨rule.instruction, edge⟩)), b.edges)

end Outgoing

namespace Drawing

variable {ρ : Type}

/-- Draws one more state with its row. -/
def add (outgoing : State → ρ → List Edge → Outgoing × List Edge) (d : Drawing) :
    State × Option ρ → Drawing
  | (state, none) => (d.1.insert state ⟨state, none⟩, d.2)
  | (state, some row) =>
    let (o, edges) := outgoing state row d.2
    (d.1.insert state ⟨state, some o⟩, edges)

/-- Draws the states in order. -/
def ofRows (outgoing : State → ρ → List Edge → Outgoing × List Edge) (rows : List (State × Option ρ)) :
    Drawing :=
  rows.foldl (add outgoing) (.empty, [])

end Drawing

namespace Table

def drawing : Table → Drawing
  | .single t => .ofRows Outgoing.ofSymbols t.states.entries
  | .multi t => .ofRows Outgoing.ofRules t.states.entries

/-- Every state is a vertex, and the transitions of a state with the same target share an edge. -/
def graph (t : Table) : StateGraph := ⟨t.drawing.1, t.drawing.2, t.tapes, t.wildcard⟩

end Table

/-! ## Looking up -/

/-- An instruction with its edge and the number of the edge. -/
structure Match where
  instruction : Instruction
  edge : Edge
  index : Nat
deriving DecidableEq

namespace Outgoing

/-- The entry for the symbols under the heads. -/
def find? (wildcard : Option Symbol) : Outgoing → List Symbol → Option (Entry Instruction)
  | .single entries, [symbol] => (entries.get? symbol).map fun e => ⟨.single e.instruction, e.edge⟩
  | .single _, _ => none
  | .multi entries, symbols =>
    (entries.find? (·.1.reads wildcard symbols)).map fun e => ⟨.multi e.2.instruction, e.2.edge⟩

end Outgoing

namespace StateGraph

/-- The instruction for a state and the symbols under the heads, and its edge. -/
def find? (g : StateGraph) (state : State) (symbols : List Symbol) : Option Match := do
  let outgoing ← (← g.vertices.get? state).outgoing
  let entry ← outgoing.find? g.wildcard symbols
  let edge ← g.edges[entry.edge]?
  return ⟨entry.instruction, edge, entry.edge⟩

/-- The edges from one state to another. -/
def edgesBetween (g : StateGraph) (source target : State) : List Edge :=
  g.edges.filter fun e => e.source == source && e.target == target

/-- The name of the edge with the given number. -/
def edgeName (index : Nat) (e : Edge) : String := s!"{e.source}-{e.target}-{index}"

def edgeId? (g : StateGraph) (index : Nat) : Option String := g.edges[index]?.map (edgeName index)

def control (g : StateGraph) : Control where
  tapes := g.tapes
  lookup state symbols := (g.find? state symbols).map (·.instruction)

end StateGraph

end TapeMachine
