import TapeMachine.Graph.Elements
import TapeMachine.Proofs.Document.Validity
import TapeMachine.Proofs.Graph.Merging

/-!
# Names of elements

In the list of elements a vertex is named by its state, and an edge by the states it joins and its number.  Vertices
differ by their states, and edges by the digits after the last dash, whatever dashes the states have.  But nothing
keeps a state from being named like an edge, and where one is, the list has two elements of one name.
-/

namespace TapeMachine

namespace StateGraph

/-! ## Edges -/

theorem toList_edgeName (index : Nat) (e : Edge) :
    (edgeName index e).toList = (e.source ++ "-" ++ e.target).toList ++ '-' :: index.repr.toList := by
  have hname : edgeName index e = e.source ++ "-" ++ e.target ++ "-" ++ index.repr := rfl
  rw [hname, String.toList_append, String.toList_append, List.append_assoc]
  rfl

theorem repr_inj {i j : Nat} (h : i.repr = j.repr) : i = j := by
  have hdigits := congrArg (fun s : String => Nat.ofDigitChars 10 s.toList 0) h
  simpa [Nat.repr] using hdigits

theorem dash_notMem_repr (n : Nat) : '-' ∉ n.repr.toList := by
  intro hdash
  rw [Nat.repr, String.toList_ofList] at hdash
  have hdigit := Nat.isDigit_of_mem_toDigits (by decide) (by decide) hdash
  exact absurd hdigit (by decide)

/-- The number of an edge is what stands after the last dash. -/
theorem index_eq_of_edgeName {i j : Nat} {e f : Edge} (h : edgeName i e = edgeName j f) : i = j := by
  have hlist := congrArg String.toList h
  rw [toList_edgeName, toList_edgeName] at hlist
  have hreverse := congrArg List.reverse hlist
  simp only [List.reverse_append, List.reverse_cons, List.append_assoc, List.singleton_append] at hreverse
  have hi : '-' ∉ i.repr.toList.reverse := fun hmem => dash_notMem_repr i (List.mem_reverse.1 hmem)
  have hj : '-' ∉ j.repr.toList.reverse := fun hmem => dash_notMem_repr j (List.mem_reverse.1 hmem)
  have hdigits : i.repr.toList.reverse = j.repr.toList.reverse := by
    have htake := congrArg (List.takeWhile (· != '-')) hreverse
    rw [List.takeWhile_append_of_pos, List.takeWhile_append_of_pos] at htake
    · simpa using htake
    · intro c hc
      exact bne_iff_ne.2 fun hdash => hj (hdash ▸ hc)
    · intro c hc
      exact bne_iff_ne.2 fun hdash => hi (hdash ▸ hc)
  exact repr_inj (String.toList_inj.1 (List.reverse_inj.1 hdigits))

variable (g : StateGraph)

theorem getElem?_edgeElements (index : Nat) :
    g.edgeElements[index]?.map Element.id = g.edgeId? index := by
  rw [edgeElements, edgeId?, List.getElem?_mapIdx, Option.map_map]
  rfl

theorem nodup_edgeNames : (g.edgeElements.map Element.id).Nodup := by
  rw [List.nodup_iff_getElem?_ne_getElem?]
  intro i j hij hj heq
  rw [List.length_map, edgeElements, List.length_mapIdx] at hj
  rw [List.getElem?_map, List.getElem?_map, getElem?_edgeElements, getElem?_edgeElements, edgeId?, edgeId?,
    List.getElem?_eq_getElem (Nat.lt_trans hij hj), List.getElem?_eq_getElem hj] at heq
  have hindex := index_eq_of_edgeName (Option.some.inj heq)
  omega

theorem mem_edgeNames {name : String} :
    name ∈ g.edgeElements.map Element.id ↔ ∃ index, g.edgeId? index = some name := by
  rw [List.mem_iff_getElem?]
  simp only [List.getElem?_map, getElem?_edgeElements]

/-! ## Vertices -/

variable (t : Table)

theorem nodeNames : t.graph.nodes.map Element.id = t.states := by
  rw [← keys_vertices t, nodes, List.map_map]
  rfl

theorem edge_mem_elements {id source target label : String} :
    Element.edge id source target label ∈ g.elements →
      ∃ e ∈ g.edges, e.source = source ∧ e.target = target := by
  rw [elements, List.mem_append]
  rintro (hnode | hedge)
  · obtain ⟨x, -, hx⟩ := List.mem_map.1 hnode
    cases hx
  · obtain ⟨index, hindex, he⟩ := List.mem_mapIdx.1 hedge
    cases he
    exact ⟨_, List.getElem_mem hindex, rfl, rfl⟩

theorem nodup_names_iff : (t.graph.elements.map Element.id).Nodup ↔
    ∀ index name, t.graph.edgeId? index = some name → name ∉ t.states := by
  rw [elements, List.map_append, nodeNames, List.nodup_append]
  constructor
  · rintro ⟨-, -, hdisjoint⟩ index name hname hstate
    exact hdisjoint name hstate name ((mem_edgeNames _).2 ⟨index, hname⟩) rfl
  · intro h
    refine ⟨t.nodup_states, nodup_edgeNames _, ?_⟩
    rintro state hstate name hname rfl
    obtain ⟨index, hindex⟩ := (mem_edgeNames _).1 hname
    exact h index state hindex hstate

end StateGraph

namespace Spec

/-- The elements of the graph of a specification that was read from a text.  No two vertices and no two edges have the
same name, the name of an edge is the one by which it is known, and the edges join vertices.  All names are
distinct if and only if no state is named like an edge. -/
theorem elements_of_parse {text : String} {s : Spec} (h : parse text = .ok s) :
    (s.table.graph.nodes.map Element.id).Nodup ∧
    (s.table.graph.edgeElements.map Element.id).Nodup ∧
    (∀ index, s.table.graph.edgeElements[index]?.map Element.id = s.table.graph.edgeId? index) ∧
    (∀ id source target label, Element.edge id source target label ∈ s.table.graph.elements →
      source ∈ s.table.graph.nodes.map Element.id ∧ target ∈ s.table.graph.nodes.map Element.id) ∧
    ((s.table.graph.elements.map Element.id).Nodup ↔
      ∀ index name, s.table.graph.edgeId? index = some name → name ∉ s.table.states) := by
  obtain ⟨-, v, -, hv⟩ := parse_eq_ok_iff.1 h
  have hvalid := (valid_of_ofValue hv).table
  refine ⟨?_, StateGraph.nodup_edgeNames _, StateGraph.getElem?_edgeElements _, ?_, StateGraph.nodup_names_iff _⟩
  · rw [StateGraph.nodeNames]
    exact s.table.nodup_states
  · intro id source target label hmem
    obtain ⟨e, he, rfl, rfl⟩ := StateGraph.edge_mem_elements _ hmem
    obtain ⟨⟨r, hr, htarget⟩, -⟩ := StateGraph.mem_edges_graph.1 he
    have hsource : e.source ∈ s.table.states := by
      by_contra hnone
      rw [Table.transitions_of_not_mem hnone] at hr
      cases hr
    rw [StateGraph.nodeNames]
    refine ⟨hsource, ?_⟩
    rw [← htarget, Instruction.target]
    cases hnext : r.instruction.next with
    | none => exact hsource
    | some q => exact hvalid.next e.source r hr q hnext

/-- A machine with two states, the second of which has the name of the edge from the first to itself. -/
def clash : String := "blank: 0\nstart state: a\ntable:\n  a: \x7b0: R\x7d\n  a-a-0:\n"

theorem exists_parse_clash : ∃ s, parse clash = .ok s ∧ s.table.states = ["a", "a-a-0"] ∧
    s.table.graph.edgeId? 0 = some "a-a-0" := by
  have hread : ((parse clash).toOption.map fun s => (s.table.states, s.table.graph.edgeId? 0)) =
      some (["a", "a-a-0"], some "a-a-0") := by
    decide +kernel
  obtain ⟨s, hs, hboth⟩ := exists_of_toOption_map hread
  exact ⟨s, hs, congrArg Prod.fst hboth, congrArg Prod.snd hboth⟩

theorem elements_of_parse_clash : ∃ s, parse clash = .ok s ∧
    (s.table.graph.nodes.map Element.id).Nodup ∧ (s.table.graph.edgeElements.map Element.id).Nodup := by
  obtain ⟨s, hs, -, -⟩ := exists_parse_clash
  obtain ⟨hnodes, hedges, -, -, -⟩ := elements_of_parse hs
  exact ⟨s, hs, hnodes, hedges⟩

/-- The vertex and the edge have one name. -/
theorem not_nodup_names_clash :
    ¬ ∀ text s, parse text = .ok s → (s.table.graph.elements.map Element.id).Nodup := by
  intro hall
  obtain ⟨s, hs, hstates, hedge⟩ := exists_parse_clash
  have hnone := (StateGraph.nodup_names_iff s.table).1 (hall clash s hs) 0 "a-a-0" hedge
  rw [hstates] at hnone
  exact hnone (by decide)

end Spec

end TapeMachine
