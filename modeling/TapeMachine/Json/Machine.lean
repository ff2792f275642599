import TapeMachine.Graph
import TapeMachine.Json
import TapeMachine.Spec

/-!
# Machines in JSON

How specifications, tables, graphs and tapes are written in JSON: a record with its fields in order of
declaration, a choice as an object with the name of the case, a dictionary as an object, and the
symbols of a pattern or a tape one by one.
-/

namespace TapeMachine

def Direction.jsonName : Direction → String
  | .left => "Left"
  | .right => "Right"
  | .stay => "Stay"

def MachineType.jsonName : MachineType → String
  | .oneTape => "OneTape"
  | .threeTape => "ThreeTape"

namespace Json

def ofDirection (d : Direction) : Json := .string d.jsonName

def ofSingleInstruction (i : SingleInstruction) : Json := .object [
  ("write", ofOption ofChar i.write),
  ("movement", ofDirection i.move),
  ("next_state", ofOption .string i.next)]

def ofMultiInstruction (i : MultiInstruction) : Json := .object [
  ("write", ofOption (fun cs => .array (cs.map (ofOption ofChar))) i.write),
  ("moves", ofOption (fun ds => .array (ds.map ofDirection)) i.moves),
  ("next_state", ofOption .string i.next)]

/-! ## Tables -/

def ofSymbols {α : Type} (f : α → Json) (d : Dict Symbol α) : Json :=
  .object (d.entries.map fun (c, a) => (String.singleton c, f a))

def ofStates {α : Type} (f : α → Json) (d : Dict State α) : Json :=
  .object (d.entries.map fun (s, a) => (s, f a))

def ofRule (r : Rule) : Json := .object [
  ("pattern", ofChars r.pattern),
  ("instruction", ofMultiInstruction r.instruction)]

def ofTable : Table → Json
  | .single t => .object [("SingleTape", .object [
      ("states", ofStates (ofOption (ofSymbols ofSingleInstruction)) t.states)])]
  | .multi t => .object [("MultiTape", .object [
      ("tapes", .number t.tapes),
      ("wildcard", ofOption ofChar t.wildcard),
      ("states", ofStates (ofOption fun rules => .array (rules.map ofRule)) t.states)])]

def ofSpec (s : Spec) : Json := .object [
  ("name", ofOption .string s.name),
  ("machine_type", .string s.machineType.jsonName),
  ("blank", ofChar s.blank),
  ("wild", ofOption ofChar s.wild),
  ("start_state", .string s.start),
  ("input", ofOption .string s.input),
  ("table", ofTable s.table)]

/-! ## Graphs -/

def ofEntry {ι : Type} (f : ι → Json) (e : Entry ι) : Json := .object [
  ("instruction", f e.instruction),
  ("edge", .number e.edge)]

def ofOutgoing : Outgoing → Json
  | .single entries => .object [("Single", ofSymbols (ofEntry ofSingleInstruction) entries)]
  | .multi entries => .object [("Multi",
      .array (entries.map fun (p, e) => .array [ofChars p, ofEntry ofMultiInstruction e]))]

def ofVertex (v : Vertex) : Json := .object [
  ("label", .string v.label),
  ("transitions", ofOption ofOutgoing v.outgoing)]

def ofEdge (e : Edge) : Json := .object [
  ("source", .string e.source),
  ("target", .string e.target),
  ("labels", .array (e.labels.map .string))]

def ofGraph (g : StateGraph) : Json := .object [
  ("vertices", ofStates ofVertex g.vertices),
  ("edges", .array (g.edges.map ofEdge)),
  ("tapes", .number g.tapes),
  ("wildcard", ofOption ofChar g.wildcard)]

/-! ## Tapes -/

/-- The cells before the head, and the others. -/
def ofTape (t : Tape) : Json := .object [
  ("before", ofChars t.snapshot.before),
  ("after_including_head", ofChars t.snapshot.fromHead)]

end Json

end TapeMachine
