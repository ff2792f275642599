import Mathlib.Algebra.BigOperators.Group.List.Lemmas
import Mathlib.Algebra.GroupWithZero.Nat
import Mathlib.Data.List.Dedup
import Mathlib.Data.List.Basic
import Mathlib.Data.List.Induction
import TapeMachine.Graph
import TapeMachine.Proofs.FirstOccurrences
import TapeMachine.Proofs.Success

/-!
# Merging transitions into edges

The builder goes through the transitions one by one and puts each label on the edge that it has already made
for the two states, or on a new one.  What it has made after some transitions of a state can be said at once:
after the edges of the earlier states come those of this one, in the order in which their targets were first met,
each with the labels of the transitions that lead to it.  A transition more keeps this, and so does a state more,
so the graph of a table has a closed form.  From it follows which edges there are, in which order, and that no
label is lost or doubled.
-/

namespace TapeMachine

/-! ## Places of values -/

section Places
variable {α : Type} [DecidableEq α]

theorem pairwise_idxOf {xs : List α} (h : xs.Nodup) : xs.Pairwise fun a b => xs.idxOf a < xs.idxOf b := by
  rw [List.pairwise_iff_getElem]
  intro i j hi hj hlt
  rw [h.idxOf_getElem, h.idxOf_getElem]
  exact hlt

theorem modify_idxOf_map {β : Type} {xs : List α} (h : xs.Nodup) {a : α} (ha : a ∈ xs) (f : α → β) (g : β → β) :
    (xs.map f).modify (xs.idxOf a) g = xs.map fun x => if x = a then g (f x) else f x := by
  induction xs with
  | nil => cases ha
  | cons x xs ih =>
    obtain ⟨hx, hxs⟩ := List.nodup_cons.1 h
    by_cases hxa : x = a
    · subst hxa
      have hrest : xs.map f = xs.map fun y => if y = x then g (f y) else f y := by
        refine List.map_congr_left fun y hy => ?_
        rw [if_neg]
        rintro rfl
        exact hx hy
      rw [List.idxOf_cons_self, List.map_cons, List.modify_zero_cons, List.map_cons, if_pos rfl, ← hrest]
    · have ha' : a ∈ xs := (List.mem_cons.1 ha).resolve_left (Ne.symm hxa)
      rw [List.idxOf_cons_ne xs hxa, List.map_cons, List.modify_succ_cons, ih hxs ha', List.map_cons, if_neg hxa]

end Places

/-! ## Labels -/

/-- What a transition of either kind reads, writes and moves, tape by tape. -/
def Transition.label (r : Transition) : String :=
  let reads := r.pattern.map Symbol.visible
  let writes := r.pattern.mapIdx fun tape c =>
    Symbol.visible ((r.instruction.writeFor tape).getD c)
  let moves := r.pattern.mapIdx fun tape _ => (r.instruction.moveFor tape).letter
  String.ofList (reads ++ [' ', '\u2192', ' '] ++ writes ++ ',' :: moves)

theorem label_single (symbol : Symbol) (i : SingleInstruction) :
    Transition.label ⟨[symbol], .single i⟩ = singleLabel symbol i := rfl

theorem label_multi (pattern : Pattern) (i : MultiInstruction) :
    Transition.label ⟨pattern, .multi i⟩ = multiLabel pattern i := by
  have hmoves : pattern.mapIdx (fun tape _ => (i.moveFor tape).letter) =
      (List.range pattern.length).map fun tape => (i.moveFor tape).letter := by
    refine List.ext_getElem (by simp) fun tape _ _ => ?_
    simp
  rw [multiLabel, ← hmoves]
  rfl

/-! ## The edges of some transitions -/

section Edges
variable (source : State) (rs : List Transition)

/-- The states to which transitions lead from a state, each once. -/
def targetsOf : List State := (rs.map (·.instruction.target source)).eraseDups

/-- The edge to a target, with all transitions that lead to it. -/
def edgeOf (target : State) : Edge where
  source := source
  target := target
  labels := (rs.filter (·.instruction.target source == target)).map Transition.label

def edgesOf : List Edge := (targetsOf source rs).map (edgeOf source rs)

/-- The number of the edge to a target, where the edges of a state have the given targets and the first of
them has the given number. -/
def edgeNumber (first : Nat) (targets : List State) (target : State) : Nat := first + targets.idxOf target

variable {source rs} {r : Transition} {target : State}

theorem mem_targetsOf : target ∈ targetsOf source rs ↔ ∃ r ∈ rs, r.instruction.target source = target := by
  rw [targetsOf, List.mem_eraseDups, List.mem_map]

theorem nodup_targetsOf : (targetsOf source rs).Nodup := nodup_eraseDups _

theorem exists_targetsOf_append (source : State) (rs rs' : List Transition) :
    ∃ later, targetsOf source (rs ++ rs') = targetsOf source rs ++ later := by
  rw [targetsOf, List.map_append, List.eraseDups_append]
  exact ⟨_, rfl⟩

theorem targetsOf_concat (r : Transition) : targetsOf source (rs ++ [r]) =
    if r.instruction.target source ∈ targetsOf source rs then targetsOf source rs
    else targetsOf source rs ++ [r.instruction.target source] := by
  rw [targetsOf, List.map_append, List.map_singleton, eraseDups_concat]
  simp only [targetsOf, List.mem_eraseDups]

theorem edgeOf_concat (r : Transition) (target : State) : edgeOf source (rs ++ [r]) target =
    if target = r.instruction.target source then (edgeOf source rs target).addLabel r.label
    else edgeOf source rs target := by
  by_cases h : target = r.instruction.target source
  · have hlast : [r].filter (·.instruction.target source == target) = [r] := by simp [h]
    rw [if_pos h, edgeOf, List.filter_append, hlast, List.map_append]
    rfl
  · have hlast : [r].filter (·.instruction.target source == target) = [] := by simp [Ne.symm h]
    rw [if_neg h, edgeOf, List.filter_append, hlast, List.append_nil]
    rfl

theorem edgesOf_concat_of_mem (h : r.instruction.target source ∈ targetsOf source rs) :
    edgesOf source (rs ++ [r]) = (edgesOf source rs).modify
      ((targetsOf source rs).idxOf (r.instruction.target source)) (Edge.addLabel r.label) := by
  rw [edgesOf, edgesOf, modify_idxOf_map nodup_targetsOf h, targetsOf_concat, if_pos h]
  exact List.map_congr_left fun target _ => edgeOf_concat r target

theorem edgeOf_of_notMem (h : target ∉ targetsOf source rs) : edgeOf source rs target = ⟨source, target, []⟩ := by
  have hnone : rs.filter (·.instruction.target source == target) = [] := by
    refine List.filter_eq_nil_iff.2 fun r hr => ?_
    rw [beq_iff_eq]
    exact fun htarget => h (mem_targetsOf.2 ⟨r, hr, htarget⟩)
  rw [edgeOf, hnone, List.map_nil]

theorem edgesOf_concat_of_notMem (h : r.instruction.target source ∉ targetsOf source rs) :
    edgesOf source (rs ++ [r]) =
      edgesOf source rs ++ [⟨source, r.instruction.target source, [r.label]⟩] := by
  have hold : (targetsOf source rs).map (edgeOf source (rs ++ [r])) = edgesOf source rs := by
    refine List.map_congr_left fun target htarget => ?_
    rw [edgeOf_concat, if_neg]
    rintro rfl
    exact h htarget
  have hnew : edgeOf source (rs ++ [r]) (r.instruction.target source) =
      ⟨source, r.instruction.target source, [r.label]⟩ := by
    rw [edgeOf_concat, if_pos rfl, edgeOf_of_notMem h]
    rfl
  rw [edgesOf, targetsOf_concat, if_neg h, List.map_append, hold, List.map_singleton, hnew]

theorem length_edgesOf : (edgesOf source rs).length = (targetsOf source rs).length := List.length_map _

end Edges

/-! ## The builder -/

theorem modify_append_add {α : Type} (xs ys : List α) (i : Nat) (f : α → α) :
    (xs ++ ys).modify (xs.length + i) f = xs ++ ys.modify i f := by
  induction xs with
  | nil => rw [List.length_nil, Nat.zero_add, List.nil_append, List.nil_append]
  | cons x xs ih => rw [List.length_cons, Nat.add_right_comm, List.cons_append, List.modify_succ_cons, ih, List.cons_append]

namespace EdgeBuilder

variable {es : List Edge} {source : State} {rs : List Transition} {b : EdgeBuilder}

/-- The builder has gone through some transitions of a state; `es` are the edges of the states before. -/
structure Collects (es : List Edge) (source : State) (rs : List Transition) (b : EdgeBuilder) : Prop where
  edges : b.edges = es ++ edgesOf source rs
  byTarget : ∀ target, b.byTarget.get? target =
    if target ∈ targetsOf source rs then some (edgeNumber es.length (targetsOf source rs) target) else none

theorem collects_start (es : List Edge) (source : State) : Collects es source [] (start es) where
  edges := (List.append_nil es).symm
  byTarget _ := rfl

/-- A label goes to the edge for its two states, the number of which does not change any more. -/
theorem Collects.add (h : Collects es source rs b) (r : Transition) :
    (b.add source (r.instruction.target source) r.label).1 =
      edgeNumber es.length (targetsOf source (rs ++ [r])) (r.instruction.target source) ∧
    Collects es source (rs ++ [r]) (b.add source (r.instruction.target source) r.label).2 := by
  have hnumber := h.byTarget (r.instruction.target source)
  by_cases hmem : r.instruction.target source ∈ targetsOf source rs
  · rw [if_pos hmem] at hnumber
    have htargets : targetsOf source (rs ++ [r]) = targetsOf source rs := by
      rw [targetsOf_concat, if_pos hmem]
    rw [EdgeBuilder.add, indexFor, hnumber, htargets]
    refine ⟨rfl, ?_, ?_⟩
    · have hedges := edgesOf_concat_of_mem hmem
      show b.edges.modify _ _ = _
      rw [h.edges, hedges, edgeNumber, modify_append_add]
    · rw [htargets]
      exact h.byTarget
  · rw [if_neg hmem] at hnumber
    have htargets : targetsOf source (rs ++ [r]) = targetsOf source rs ++ [r.instruction.target source] := by
      rw [targetsOf_concat, if_neg hmem]
    have hlast : b.edges.length =
        edgeNumber es.length (targetsOf source (rs ++ [r])) (r.instruction.target source) := by
      rw [h.edges, List.length_append, length_edgesOf, edgeNumber, htargets, List.idxOf_append_of_notMem hmem,
        List.idxOf_cons_self, Nat.add_zero]
    rw [EdgeBuilder.add, indexFor, hnumber]
    refine ⟨hlast, ?_, fun target => ?_⟩
    · have hedges := edgesOf_concat_of_notMem hmem
      show (b.edges ++ [_]).modify b.edges.length _ = _
      rw [← Nat.add_zero b.edges.length, modify_append_add, List.modify_zero_cons, hedges, h.edges,
        List.append_assoc]
      rfl
    · show (b.byTarget.insert _ b.edges.length).get? target = _
      rw [Dict.get?_insert, h.byTarget target, hlast, htargets]
      by_cases htarget : target = r.instruction.target source
      · rw [if_pos htarget, htarget, if_pos (by simp)]
      · rw [if_neg htarget]
        by_cases hold : target ∈ targetsOf source rs
        · rw [if_pos hold, if_pos (List.mem_append_left _ hold), edgeNumber, edgeNumber,
            List.idxOf_append_of_mem hold]
        · rw [if_neg hold, if_neg]
          rw [List.mem_append, List.mem_singleton]
          exact fun hor => hor.elim hold htarget

section
variable {α : Type} (transition : α → Transition) (next : α → Option State) {label : α → String}
  (hnext : ∀ x, next x = (transition x).instruction.next) (hlabel : ∀ x, label x = (transition x).label)
include hnext hlabel

theorem Collects.addAll (h : Collects es source rs b) (xs : List α) :
    (b.addAll source next label xs).1 = xs.map (fun x => (x, edgeNumber es.length
      (targetsOf source (rs ++ xs.map transition)) ((next x).getD source))) ∧
    Collects es source (rs ++ xs.map transition) (b.addAll source next label xs).2 := by
  induction xs generalizing rs b with
  | nil => exact ⟨rfl, by rwa [List.map_nil, List.append_nil]⟩
  | cons x xs ih =>
    have htarget : (transition x).instruction.target source = (next x).getD source := by
      rw [Instruction.target, hnext]
    obtain ⟨hnumber, hadd⟩ := h.add (transition x)
    rw [htarget, ← hlabel] at hnumber hadd
    obtain ⟨hrest, hall⟩ := ih hadd
    rw [List.append_assoc, List.singleton_append, ← List.map_cons] at hrest hall
    refine ⟨?_, hall⟩
    have hstays : edgeNumber es.length (targetsOf source (rs ++ [transition x])) ((next x).getD source) =
        edgeNumber es.length (targetsOf source (rs ++ (x :: xs).map transition)) ((next x).getD source) := by
      have hmem : (next x).getD source ∈ targetsOf source (rs ++ [transition x]) :=
        mem_targetsOf.2 ⟨transition x, by simp, htarget⟩
      obtain ⟨later, hlater⟩ := exists_targetsOf_append source (rs ++ [transition x]) (xs.map transition)
      have happend : rs ++ (x :: xs).map transition = rs ++ [transition x] ++ xs.map transition := by simp
      rw [edgeNumber, edgeNumber, happend, hlater, List.idxOf_append_of_mem hmem]
    rw [EdgeBuilder.addAll, List.map_cons, ← hstays, ← hnumber, ← hrest]

theorem addAll_start (es : List Edge) (source : State) (xs : List α) :
    ((start es).addAll source next label xs).1 = xs.map (fun x => (x, edgeNumber es.length
      (targetsOf source (xs.map transition)) ((next x).getD source))) ∧
    ((start es).addAll source next label xs).2.edges = es ++ edgesOf source (xs.map transition) := by
  obtain ⟨hnumbers, hall⟩ := (collects_start es source).addAll transition next hnext hlabel xs
  exact ⟨hnumbers, hall.edges⟩

end

end EdgeBuilder

/-! ## The drawing of a table -/

namespace Outgoing

/-- The entries of a row, with the numbers of the edges to their targets. -/
def ofRow (row : Dict Symbol SingleInstruction) (number : Option State → Nat) : Outgoing :=
  .single (row.map fun _ i => ⟨i, number i.next⟩)

def ofRuleList (rules : List Rule) (number : Option State → Nat) : Outgoing :=
  .multi (rules.map fun rule => (rule.pattern, ⟨rule.instruction, number rule.instruction.next⟩))

theorem ofSymbols_eq (state : State) (row : Dict Symbol SingleInstruction) (es : List Edge) :
    ofSymbols state row es =
      (ofRow row fun next => edgeNumber es.length
        (targetsOf state (row.entries.map fun x => ⟨[x.1], .single x.2⟩)) (next.getD state),
      es ++ edgesOf state (row.entries.map fun x => ⟨[x.1], .single x.2⟩)) := by
  obtain ⟨hnumbers, hedges⟩ := EdgeBuilder.addAll_start
    (fun x : Symbol × SingleInstruction => ⟨[x.1], .single x.2⟩) (fun x => x.2.next)
    (fun _ => rfl) (fun x => (label_single x.1 x.2).symm) es state row.entries
  refine Prod.ext ?_ hedges
  refine congrArg Outgoing.single (Dict.ext_entries ?_)
  rw [hnumbers, List.map_map]
  refine Dict.entries_ofList ?_
  rw [List.map_map]
  exact row.nodup_keys

theorem ofRules_eq (state : State) (rules : List Rule) (es : List Edge) :
    ofRules state rules es =
      (ofRuleList rules fun next => edgeNumber es.length
        (targetsOf state (rules.map fun rule => ⟨rule.pattern, .multi rule.instruction⟩)) (next.getD state),
      es ++ edgesOf state (rules.map fun rule => ⟨rule.pattern, .multi rule.instruction⟩)) := by
  obtain ⟨hnumbers, hedges⟩ := EdgeBuilder.addAll_start
    (fun rule : Rule => ⟨rule.pattern, .multi rule.instruction⟩) (fun rule => rule.instruction.next)
    (fun _ => rfl) (fun rule => (label_multi rule.pattern rule.instruction).symm) es state rules
  refine Prod.ext ?_ hedges
  refine congrArg Outgoing.multi ?_
  rw [hnumbers, List.map_map]
  rfl

end Outgoing

namespace Drawing

variable {ρ : Type} (outgoing : State → ρ → List Edge → Outgoing × List Edge)
  (vertex : State × Option ρ → Vertex) (leaving : State → List Edge)

/-- If each row puts its vertex and its edges after those of the rows before, so do all of them. -/
theorem ofRows_eq {rows : List (State × Option ρ)} (hd : (rows.map Prod.fst).Nodup)
    (hadd : ∀ before x after, rows = before ++ x :: after → ∀ vertices,
      add outgoing (vertices, (before.map Prod.fst).flatMap leaving) x =
        (vertices.insert x.1 (vertex x), (before.map Prod.fst).flatMap leaving ++ leaving x.1)) :
    (ofRows outgoing rows).1.entries = rows.map (fun x => (x.1, vertex x)) ∧
      (ofRows outgoing rows).2 = (rows.map Prod.fst).flatMap leaving := by
  have hbefore : ∀ before after, rows = before ++ after →
      (ofRows outgoing before).1.entries = before.map (fun x => (x.1, vertex x)) ∧
        (ofRows outgoing before).2 = (before.map Prod.fst).flatMap leaving := by
    intro before
    induction before using List.reverseRecOn with
    | nil => exact fun _ _ => ⟨rfl, rfl⟩
    | append_singleton before x ih =>
      intro after hrows
      rw [List.append_assoc, List.singleton_append] at hrows
      obtain ⟨hvertices, hedges⟩ := ih _ hrows
      have hdrawing : ofRows outgoing (before ++ [x]) = ((ofRows outgoing before).1.insert x.1 (vertex x),
          (before.map Prod.fst).flatMap leaving ++ leaving x.1) := by
        rw [ofRows, List.foldl_append, List.foldl_cons, List.foldl_nil, ← hadd before x after hrows, ← hedges]
        rfl
      have hnew : x.1 ∉ (ofRows outgoing before).1.keys := by
        rw [Dict.keys, hvertices, List.map_map]
        intro hx
        rw [hrows, List.map_append, List.nodup_append] at hd
        exact hd.2.2 x.1 hx x.1 (by simp) rfl
      rw [hdrawing, List.map_append, List.map_append, List.flatMap_append]
      refine ⟨?_, by simp⟩
      rw [Dict.entries_insert_of_not_mem _ hnew, hvertices]
      rfl
  exact hbefore rows [] (List.append_nil rows).symm

end Drawing

namespace Table

/-- The states to which the transitions of a state lead, each once. -/
def targets (t : Table) (state : State) : List State := targetsOf state (t.transitions state)

def edge (t : Table) (source target : State) : Edge := edgeOf source (t.transitions source) target

/-- The edges that leave a state. -/
def edgesFrom (t : Table) (state : State) : List Edge := edgesOf state (t.transitions state)

/-- The edges that leave the states, in order. -/
def edges (t : Table) : List Edge := t.states.flatMap t.edgesFrom

/-- The number of the first edge that leaves a state. -/
def firstEdge (t : Table) (state : State) : Nat :=
  ((t.states.takeWhile (· != state)).flatMap t.edgesFrom).length

/-- The number of the edge that an instruction follows from a state. -/
def numberOf (t : Table) (state : State) (next : Option State) : Nat :=
  edgeNumber (t.firstEdge state) (t.targets state) (next.getD state)

/-- The states with their transitions and the numbers of their edges. -/
def vertices (t : Table) : Dict State Vertex :=
  match t with
  | .single s => s.states.map fun state row => ⟨state, row.map fun row => .ofRow row (t.numberOf state)⟩
  | .multi s => s.states.map fun state row => ⟨state, row.map fun row => .ofRuleList row (t.numberOf state)⟩

variable {t : Table} {state : State}

theorem edgesFrom_of_transitions (h : t.transitions state = []) : t.edgesFrom state = [] := by
  rw [edgesFrom, h]
  rfl

theorem firstEdge_of_states {before after : List State} (h : t.states = before ++ state :: after) :
    t.firstEdge state = (before.flatMap t.edgesFrom).length := by
  have hnodup := t.nodup_states
  rw [h, List.nodup_append] at hnodup
  have hbefore : ∀ q ∈ before, (q != state) = true := by
    intro q hq
    rw [bne_iff_ne]
    exact hnodup.2.2 q hq state List.mem_cons_self
  rw [firstEdge, h, List.takeWhile_append_of_pos hbefore, List.takeWhile_cons_of_neg (by simp), List.append_nil]

theorem ofRows_eq_of_rows {ρ : Type} {rows : Dict State (Option ρ)} {transitionsOf : ρ → List Transition}
    {outgoing : State → ρ → List Edge → Outgoing × List Edge} {leaving : ρ → (Option State → Nat) → Outgoing}
    (hstates : t.states = rows.keys)
    (hrows : ∀ state row, rows.get? state = some row → t.transitions state = (row.map transitionsOf).getD [])
    (houtgoing : ∀ state row es, outgoing state row es =
      (leaving row fun next => edgeNumber es.length (targetsOf state (transitionsOf row)) (next.getD state),
        es ++ edgesOf state (transitionsOf row))) :
    Drawing.ofRows outgoing rows.entries =
      (rows.map fun state row => ⟨state, row.map fun row => leaving row (t.numberOf state)⟩, t.edges) := by
  have hadd : ∀ before x after, rows.entries = before ++ x :: after → ∀ vertices,
      Drawing.add outgoing (vertices, (before.map Prod.fst).flatMap t.edgesFrom) x =
        (vertices.insert x.1 ⟨x.1, x.2.map fun row => leaving row (t.numberOf x.1)⟩,
          (before.map Prod.fst).flatMap t.edgesFrom ++ t.edgesFrom x.1) := by
    rintro before ⟨state, row⟩ after hentries vertices
    have hbefore : t.states = before.map Prod.fst ++ state :: after.map Prod.fst := by
      rw [hstates, Dict.keys, hentries, List.map_append, List.map_cons]
    have hget : rows.get? state = some row := by
      rw [Dict.get?_eq_some_iff, hentries]
      exact List.mem_append_right _ List.mem_cons_self
    have htransitions := hrows state row hget
    cases row with
    | none =>
      rw [edgesFrom_of_transitions htransitions, List.append_nil]
      rfl
    | some row =>
      have hrow : t.transitions state = transitionsOf row := htransitions
      have hnumber : t.numberOf state = fun next => edgeNumber ((before.map Prod.fst).flatMap t.edgesFrom).length
          (targetsOf state (transitionsOf row)) (next.getD state) := by
        funext next
        rw [numberOf, firstEdge_of_states hbefore, targets, hrow]
      simp only [Drawing.add]
      rw [houtgoing, edgesFrom, hrow, Option.map_some, hnumber]
  obtain ⟨hvertices, hedges⟩ := Drawing.ofRows_eq _ _ _ rows.nodup_keys hadd
  refine Prod.ext (Dict.ext_entries hvertices) ?_
  rw [hedges, edges, hstates]
  rfl

theorem drawing_eq (t : Table) : t.drawing = (t.vertices, t.edges) := by
  cases t with
  | single s =>
    have hrows : ∀ state row, s.states.get? state = some row → (single s).transitions state =
        (row.map fun row => row.entries.map fun x => ⟨[x.1], .single x.2⟩).getD [] := by
      intro state row hget
      cases row <;> simp [transitions, hget]
    exact ofRows_eq_of_rows rfl hrows Outgoing.ofSymbols_eq
  | multi s =>
    have hrows : ∀ state row, s.states.get? state = some row → (multi s).transitions state =
        (row.map fun rules => rules.map fun rule => ⟨rule.pattern, .multi rule.instruction⟩).getD [] := by
      intro state row hget
      cases row <;> simp [transitions, hget]
    exact ofRows_eq_of_rows rfl hrows Outgoing.ofRules_eq

/-- The builder draws the vertices and the edges of the closed form. -/
theorem graph_eq (t : Table) : t.graph = ⟨t.vertices, t.edges, t.tapes, t.wildcard⟩ := by
  rw [graph, drawing_eq]

theorem edges_graph (t : Table) : t.graph.edges = t.edges := by rw [graph_eq]

theorem vertices_graph (t : Table) : t.graph.vertices = t.vertices := by rw [graph_eq]

end Table

namespace StateGraph

@[simp] theorem keys_vertices (t : Table) : t.graph.vertices.keys = t.states := by
  rw [Table.vertices_graph]
  cases t <;> exact Dict.keys_map _ _

theorem map_vertices (t : Table) :
    t.graph.vertices.entries.map (fun x => (x.1, x.2.label, x.2.outgoing.isNone)) =
      t.states.map fun state => (state, state, t.isHalting state) := by
  rw [Table.vertices_graph]
  cases t with
  | single t =>
    rw [Table.states, Dict.keys, List.map_map, Table.vertices, Dict.map, List.map_map]
    refine List.map_congr_left fun x hx => ?_
    have hrow : t.states.get? x.1 = some x.2 := Dict.get?_eq_some_iff.2 hx
    cases h : x.2 <;> simp [Table.isHalting, hrow, h]
  | multi t =>
    rw [Table.states, Dict.keys, List.map_map, Table.vertices, Dict.map, List.map_map]
    refine List.map_congr_left fun x hx => ?_
    have hrow : t.states.get? x.1 = some x.2 := Dict.get?_eq_some_iff.2 hx
    cases h : x.2 <;> simp [Table.isHalting, hrow, h]

/-! ## What the graph shows -/

open Table (edges_graph)

variable {t : Table}

theorem mem_edges_graph {e : Edge} : e ∈ t.graph.edges ↔
    (∃ r ∈ t.transitions e.source, r.instruction.target e.source = e.target) ∧
      e = edgeOf e.source (t.transitions e.source) e.target := by
  rw [edges_graph, Table.edges, List.mem_flatMap]
  constructor
  · rintro ⟨state, -, he⟩
    obtain ⟨target, htarget, rfl⟩ := List.mem_map.1 he
    exact ⟨mem_targetsOf.1 htarget, rfl⟩
  · rintro ⟨htarget, he⟩
    have hstate : e.source ∈ t.states := by
      by_contra hstate
      rw [Table.transitions_of_not_mem hstate] at htarget
      obtain ⟨r, hr, -⟩ := htarget
      cases hr
    exact ⟨e.source, hstate, List.mem_map.2 ⟨e.target, mem_targetsOf.2 htarget, he.symm⟩⟩

/-- The one edge comes before the other: by the order of the states, and for one state by the order in which
its transitions first lead to the targets. -/
def Before (t : Table) (e e' : Edge) : Prop :=
  t.states.idxOf e.source < t.states.idxOf e'.source ∨
    e.source = e'.source ∧ (t.successors e.source).idxOf e.target < (t.successors e.source).idxOf e'.target

theorem pairwise_edges_graph (t : Table) : t.graph.edges.Pairwise (Before t) := by
  rw [edges_graph, Table.edges, List.pairwise_flatMap]
  constructor
  · intro state _
    refine List.pairwise_map.2 ?_
    refine (pairwise_eraseDups _).imp fun hlt => Or.inr ⟨rfl, ?_⟩
    rw [Table.successors_eq]
    exact hlt
  · refine (pairwise_idxOf t.nodup_states).imp fun hlt e he e' he' => ?_
    obtain ⟨target, -, rfl⟩ := List.mem_map.1 he
    obtain ⟨target', -, rfl⟩ := List.mem_map.1 he'
    exact Or.inl hlt

theorem nodup_edges_graph (t : Table) : t.graph.edges.Nodup := by
  refine (pairwise_edges_graph t).imp fun hbefore heq => ?_
  subst heq
  rcases hbefore with hlt | ⟨-, hlt⟩
  · exact Nat.lt_irrefl _ hlt
  · exact Nat.lt_irrefl _ hlt

theorem edgesBetween_graph (t : Table) (source target : State) :
    t.graph.edgesBetween source target =
      if ∃ r ∈ t.transitions source, r.instruction.target source = target
      then [edgeOf source (t.transitions source) target] else [] := by
  have hfilter : t.graph.edgesBetween source target =
      t.graph.edges.filter (· == edgeOf source (t.transitions source) target) := by
    refine List.filter_congr fun e he => ?_
    have hedge := (mem_edges_graph.1 he).2
    rw [Bool.eq_iff_iff, Bool.and_eq_true, beq_iff_eq, beq_iff_eq, beq_iff_eq]
    constructor
    · rintro ⟨rfl, rfl⟩
      exact hedge
    · intro h
      rw [h]
      exact ⟨rfl, rfl⟩
  have hmem : edgeOf source (t.transitions source) target ∈ t.graph.edges ↔
      ∃ r ∈ t.transitions source, r.instruction.target source = target :=
    mem_edges_graph.trans (and_iff_left rfl)
  rw [hfilter, List.filter_beq]
  by_cases h : ∃ r ∈ t.transitions source, r.instruction.target source = target
  · rw [if_pos h, List.count_eq_one_of_mem (nodup_edges_graph t) (hmem.2 h)]
    rfl
  · rw [if_neg h, List.count_eq_zero_of_not_mem fun hin => h (hmem.1 hin)]
    rfl

/-- Each transition puts one label on the edges of its state. -/
theorem sum_labels_edgesOf (source : State) (rs : List Transition) :
    ((edgesOf source rs).map (·.labels.length)).sum = rs.length := by
  have hperm : (targetsOf source rs).Perm (rs.map (·.instruction.target source)).dedup := by
    refine (List.perm_ext_iff_of_nodup nodup_targetsOf (List.nodup_dedup _)).2 fun target => ?_
    rw [targetsOf, List.mem_eraseDups, List.mem_dedup]
  have hlabels : ∀ target, (edgeOf source rs target).labels.length =
      (rs.map (·.instruction.target source)).count target := by
    intro target
    rw [edgeOf, List.length_map, List.count_eq_countP, List.countP_map, List.countP_eq_length_filter]
    rfl
  rw [edgesOf, List.map_map, (hperm.map _).sum_eq]
  simp only [Function.comp_def, hlabels]
  rw [List.sum_map_count_dedup_eq_length, List.length_map]

theorem sum_labels_graph (t : Table) : (t.graph.edges.map (·.labels.length)).sum = t.transitionCount := by
  rw [edges_graph, Table.edges, Table.transitionCount_eq_length]
  induction t.states with
  | nil => rfl
  | cons state states ih =>
    rw [List.flatMap_cons, List.flatMap_cons, List.map_append, List.sum_append, List.length_append, ih,
      Table.edgesFrom, sum_labels_edgesOf]

/-- The transitions between two states are merged into one edge.  For an ordered pair of states there is exactly one
edge if some transition of the first leads to the second, with the labels of just these transitions in the
order of the table, and none otherwise.  The edges come in the order of their sources, and for one source in the order in
which its transitions first lead to the targets.  The vertices are the states in order, halting where the state
is, and there are as many labels as transitions. -/
theorem graph_merges (t : Table) :
    (∀ source target,
      ((∃ r ∈ t.transitions source, r.instruction.target source = target) →
        t.graph.edgesBetween source target = [⟨source, target,
          ((t.transitions source).filter (·.instruction.target source == target)).map Transition.label⟩]) ∧
      ((¬ ∃ r ∈ t.transitions source, r.instruction.target source = target) →
        t.graph.edgesBetween source target = [])) ∧
    t.graph.edges.Pairwise (fun e e' =>
      t.states.idxOf e.source < t.states.idxOf e'.source ∨ e.source = e'.source ∧
        (t.successors e.source).idxOf e.target < (t.successors e.source).idxOf e'.target) ∧
    t.graph.vertices.entries.map (fun x => (x.1, x.2.label, x.2.outgoing.isNone)) =
      t.states.map (fun state => (state, state, t.isHalting state)) ∧
    (t.graph.edges.map (·.labels.length)).sum = t.transitionCount := by
  refine ⟨fun source target => ⟨fun h => ?_, fun h => ?_⟩, pairwise_edges_graph t, map_vertices t,
    sum_labels_graph t⟩
  · rw [edgesBetween_graph, if_pos h]
    rfl
  · rw [edgesBetween_graph, if_neg h]

end StateGraph

end TapeMachine
