import TapeMachine.Graph.Elements
import TapeMachine.Proofs.Graph.Merging

/-!
# What the list of elements keeps

The list of elements is made for display, but nothing of the graph is lost in it: whoever has the list can tell which
states there are, which of them halt, which edges there are, and with which labels.  The labels of an edge are put
together, one on each line, and can be taken apart again since no label has a line feed: whatever symbols a table has,
a label shows white space as the open box.
-/

namespace TapeMachine

/-! ## Labels -/

theorem Symbol.not_isWhiteSpace_visible (c : Symbol) : ¬ Text.isWhiteSpace (visible c) = true := by
  by_cases h : Text.isWhiteSpace c = true
  · rw [visible_of_isWhiteSpace h]
    decide
  · rwa [visible_of_not_isWhiteSpace h]

theorem Direction.not_isWhiteSpace_letter (d : Direction) : ¬ Text.isWhiteSpace d.letter = true := by
  cases d <;> decide

/-- The two spaces around the arrow are the only white space of a label. -/
theorem Transition.eq_space_of_mem_label {r : Transition} {c : Char} (hc : c ∈ r.label.toList)
    (hspace : Text.isWhiteSpace c = true) : c = ' ' := by
  rw [label, String.toList_ofList] at hc
  simp only [List.mem_append, List.mem_cons, List.not_mem_nil, or_false, List.mem_map, List.mem_mapIdx] at hc
  rcases hc with ((⟨x, -, rfl⟩ | rfl | rfl | rfl) | ⟨tape, htape, rfl⟩) | rfl | ⟨tape, htape, rfl⟩
  · exact absurd hspace (Symbol.not_isWhiteSpace_visible x)
  · rfl
  · exact absurd hspace (by decide)
  · rfl
  · exact absurd hspace (Symbol.not_isWhiteSpace_visible _)
  · exact absurd hspace (by decide)
  · exact absurd hspace (Direction.not_isWhiteSpace_letter _)

theorem Transition.lineFeed_notMem_label (r : Transition) : '\n' ∉ r.label.toList := by
  intro h
  exact absurd (eq_space_of_mem_label h (by decide)) (by decide)

namespace StateGraph

/-- An edge is made for the first transition that needs it, so that it has a label, and only labels of transitions are
put on it. -/
theorem labels_graph {t : Table} {e : Edge} (he : e ∈ t.graph.edges) :
    e.labels = ((t.transitions e.source).filter (·.instruction.target e.source == e.target)).map Transition.label ∧
      e.labels ≠ [] ∧ ∀ label ∈ e.labels, '\n' ∉ label.toList := by
  obtain ⟨⟨r, hr, htarget⟩, hedge⟩ := mem_edges_graph.1 he
  have hlabels : e.labels =
      ((t.transitions e.source).filter (·.instruction.target e.source == e.target)).map Transition.label :=
    congrArg Edge.labels hedge
  refine ⟨hlabels, ?_, ?_⟩
  · rw [hlabels]
    exact List.ne_nil_of_mem (List.mem_map_of_mem (List.mem_filter.2 ⟨hr, beq_iff_eq.2 htarget⟩))
  · rw [hlabels]
    intro label hlabel
    obtain ⟨q, -, rfl⟩ := List.mem_map.1 hlabel
    exact q.lineFeed_notMem_label

end StateGraph

/-! ## Reading elements -/

/-- The parts of a text between line feeds. -/
def Edge.labelsOf (text : String) : List String := (text.toList.splitOn '\n').map String.ofList

theorem Edge.labelsOf_intercalate {labels : List String} (hne : labels ≠ [])
    (hlabels : ∀ label ∈ labels, '\n' ∉ label.toList) : labelsOf ("\n".intercalate labels) = labels := by
  have hline : "\n".toList = ['\n'] := by decide
  have hsplit : (['\n'].intercalate (labels.map String.toList)).splitOn '\n' = labels.map String.toList := by
    refine List.splitOn_intercalate '\n' ?_ ?_
    · simpa using hlabels
    · simpa using hne
  rw [labelsOf, String.toList_intercalate, hline, hsplit, List.map_map]
  exact (List.map_congr_left fun label _ => String.ofList_toList).trans (List.map_id labels)

namespace Json

/-- The value under a key. -/
def under? (key : String) : Json → Option Json
  | .object entries => entries.lookup key
  | _ => none

def text? : Json → Option String
  | .string s => some s
  | _ => none

/-- The text under a key of the data of an element. -/
def datum? (key : String) (element : Json) : Option String :=
  ((element.under? "data").bind (under? key)).bind text?

/-- The state that an element is for, and whether it halts.  Only these elements have classes. -/
def vertex? (element : Json) : Option (State × Bool) := do
  let classes ← (element.under? "classes").bind text?
  return (← element.datum? "id", classes == "halt")

/-- The edge that an element is for.  Only these elements have a source and a target. -/
def edge? (element : Json) : Option Edge := do
  return ⟨← element.datum? "source", ← element.datum? "target", Edge.labelsOf (← element.datum? "label")⟩

end Json

namespace Element

theorem vertex?_toJson_node (id label : String) (halting : Bool) :
    (node id label halting).toJson.vertex? = some (id, halting) := by
  cases halting <;> rfl

theorem vertex?_toJson_edge (id source target label : String) :
    (edge id source target label).toJson.vertex? = none := rfl

theorem edge?_toJson_node (id label : String) (halting : Bool) :
    (node id label halting).toJson.edge? = none := rfl

theorem edge?_toJson_edge (id source target label : String) :
    (edge id source target label).toJson.edge? = some ⟨source, target, Edge.labelsOf label⟩ := rfl

end Element

theorem filterMap_eq_of_map {α β : Type} {f : α → Option β} {xs : List α} {ys : List β}
    (h : xs.map f = ys.map some) : xs.filterMap f = ys := by
  rw [← List.map_id xs, List.filterMap_map, Function.comp_id]
  have hboth := congrArg (List.filterMap id) h
  rwa [List.filterMap_map, List.filterMap_map, Function.id_comp, Function.id_comp, List.filterMap_some] at hboth

namespace StateGraph

variable (g : StateGraph)

theorem map_vertex?_nodes : (g.nodes.map Element.toJson).map Json.vertex? =
    (g.vertices.entries.map fun x => (x.1, x.2.outgoing.isNone)).map some := by
  rw [nodes, List.map_map, List.map_map, List.map_map]
  exact List.map_congr_left fun x _ => Element.vertex?_toJson_node _ _ _

theorem filterMap_edge?_nodes : (g.nodes.map Element.toJson).filterMap Json.edge? = [] := by
  rw [nodes, List.map_map, List.filterMap_map]
  exact List.filterMap_eq_nil_iff.2 fun x _ => Element.edge?_toJson_node _ _ _

theorem filterMap_vertex?_edgeElements : (g.edgeElements.map Element.toJson).filterMap Json.vertex? = [] := by
  rw [List.filterMap_map]
  refine List.filterMap_eq_nil_iff.2 fun x hx => ?_
  obtain ⟨index, hindex, rfl⟩ := List.mem_mapIdx.1 hx
  exact Element.vertex?_toJson_edge _ _ _ _

theorem map_edge?_edgeElements
    (hlabels : ∀ e ∈ g.edges, e.labels ≠ [] ∧ ∀ label ∈ e.labels, '\n' ∉ label.toList) :
    (g.edgeElements.map Element.toJson).map Json.edge? = g.edges.map some := by
  refine List.ext_getElem? fun index => ?_
  rw [List.map_map, List.getElem?_map, edgeElements, List.getElem?_mapIdx, List.getElem?_map]
  cases he : g.edges[index]? with
  | none => rfl
  | some e =>
    obtain ⟨hne, hfeeds⟩ := hlabels e (List.mem_of_getElem? he)
    simp only [Option.map_some, Function.comp_apply, Element.edge?_toJson_edge, Edge.labelsOf_intercalate hne hfeeds]

/-- For every table, the list has an element for each vertex, in order, and then one for each edge, in order.  From the
list alone one can tell the vertices with their names and whether they halt, and the edges with their sources, their
targets and their labels.  No edge is without labels and no label has a line feed, so that the lines of its element are
the labels of the edge, one for each transition that was merged into it. -/
theorem elements_recover (t : Table) :
    (∃ vertices edges, t.graph.elements.map Element.toJson = vertices ++ edges ∧
      vertices.map Json.vertex? =
        (t.graph.vertices.entries.map fun x => (x.1, x.2.outgoing.isNone)).map some ∧
      edges.map Json.edge? = t.graph.edges.map some) ∧
    (t.graph.elements.map Element.toJson).filterMap Json.vertex? =
      t.graph.vertices.entries.map (fun x => (x.1, x.2.outgoing.isNone)) ∧
    (t.graph.elements.map Element.toJson).filterMap Json.edge? = t.graph.edges ∧
    ∀ e ∈ t.graph.edges,
      e.labels.length = ((t.transitions e.source).filter (·.instruction.target e.source == e.target)).length ∧
      e.labels ≠ [] ∧ (∀ label ∈ e.labels, '\n' ∉ label.toList) ∧
      Edge.labelsOf ("\n".intercalate e.labels) = e.labels := by
  have hvertices := map_vertex?_nodes t.graph
  have hedges := map_edge?_edgeElements t.graph fun e he => (labels_graph he).2
  refine ⟨⟨_, _, List.map_append, hvertices, hedges⟩, ?_, ?_, fun e he => ?_⟩
  · rw [elements, List.map_append, List.filterMap_append, filterMap_eq_of_map hvertices,
      filterMap_vertex?_edgeElements, List.append_nil]
  · rw [elements, List.map_append, List.filterMap_append, filterMap_edge?_nodes, filterMap_eq_of_map hedges,
      List.nil_append]
  · obtain ⟨hlabels, hne, hfeeds⟩ := labels_graph he
    refine ⟨?_, hne, hfeeds, Edge.labelsOf_intercalate hne hfeeds⟩
    rw [hlabels, List.length_map]

/-- Two transitions with line ends, which lead to the same state. -/
def breaking : Table := .single ⟨⟨[
  ("a", some ⟨[('\n', ⟨none, .left, some "b"⟩), ('\r', ⟨some '\n', .stay, some "b"⟩)], by decide⟩),
  ("b", none)], by decide⟩⟩

example : breaking.graph.edges = [⟨"a", "b", ["\u2423 → \u2423,L", "\u2423 → \u2423,S"]⟩] := by decide

end StateGraph

end TapeMachine
