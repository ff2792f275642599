import TapeMachine.Graph
import TapeMachine.Json

/-!
# Graphs as element lists

For display a graph is a flat list: an element for every vertex, named by its state, and then one for
every edge, named by the states it joins and its number.  The entries of each object are sorted by key.
-/

namespace TapeMachine

inductive Element where
  | node (id label : String) (halting : Bool)
  | edge (id source target label : String)
deriving DecidableEq

namespace Element

def id : Element → String
  | .node id _ _ => id
  | .edge id _ _ _ => id

def toJson : Element → Json
  | .node id label halting => .object [
      ("classes", .string (if halting then "halt" else "")),
      ("data", .object [("id", .string id), ("label", .string label)])]
  | .edge id source target label => .object [
      ("data", .object [("id", .string id), ("label", .string label), ("source", .string source),
        ("target", .string target)])]

end Element

namespace StateGraph

def nodes (g : StateGraph) : List Element :=
  g.vertices.entries.map fun (state, v) => .node state v.label v.outgoing.isNone

def edgeElements (g : StateGraph) : List Element :=
  g.edges.mapIdx fun index e => .edge (edgeName index e) e.source e.target ("\n".intercalate e.labels)

def elements (g : StateGraph) : List Element := g.nodes ++ g.edgeElements

def elementsJson (g : StateGraph) : String := (Json.array (g.elements.map Element.toJson)).render

end StateGraph

end TapeMachine
