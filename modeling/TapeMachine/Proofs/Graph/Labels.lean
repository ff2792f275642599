import TapeMachine.Proofs.Graph.Control
import TapeMachine.Proofs.Machine.Session

/-!
# What the labels tell

A label is made when the graph is drawn, from a pattern and an instruction alone, and is put at the end of the
labels of an edge.  When the machine takes a step, it has selected one of the entries of its state, and this entry has
one of the labels of its edge.  The main statement is that this label tells what the step does, tape by tape: which
symbol is read, which symbol is then in the cell, and which way the head goes.  Only where the pattern has the wildcard
may the label have the wildcard too.
-/

namespace TapeMachine

/-! ## Entries -/

theorem getElem?_filter_append_cons {α : Type} {p : α → Bool} {a : α} (xs ys : List α) (ha : p a = true) :
    ((xs ++ a :: ys).filter p)[(xs.filter p).length]? = some a := by
  rw [List.filter_append, List.filter_cons_of_pos ha, List.getElem?_append_right (le_refl _), Nat.sub_self]
  rfl

theorem span_append_cons {α : Type} {p : α → Bool} {before : List α} {x : α} (after : List α)
    (hbefore : ∀ y ∈ before, p y = false) (hx : p x = true) :
    (before ++ x :: after).span (fun y => !p y) = (before, x :: after) := by
  rw [List.span_eq_takeWhile_dropWhile, List.takeWhile_append_of_pos (by simpa using hbefore),
    List.dropWhile_append_of_pos (by simpa using hbefore)]
  simp [hx]

theorem Pattern.reads_singleton (c : Symbol) (symbols : List Symbol) :
    Pattern.reads none [c] symbols = ([c] == symbols) := by
  rw [Bool.eq_iff_iff, Pattern.reads_none_iff, beq_iff_eq]

/-- For both kinds of tables the instruction is that of the first transition whose pattern reads the symbols. -/
theorem Table.lookup_eq_find? (t : Table) (state : State) (symbols : List Symbol) :
    t.lookup state symbols =
      ((t.transitions state).find? (·.pattern.reads t.wildcard symbols)).map (·.instruction) := by
  cases t with
  | single t =>
    cases hrow : (t.states.get? state).join with
    | none =>
      match symbols with
      | [] => simp [lookup, transitions, hrow]
      | [symbol] => simp [lookup, SingleTable.get?, transitions, hrow]
      | _ :: _ :: _ => simp [lookup, transitions, hrow]
    | some row =>
      have htransitions : (single t).transitions state = row.entries.map fun x => ⟨[x.1], .single x.2⟩ := by
        rw [transitions, hrow]
        rfl
      rw [htransitions, List.find?_map, Option.map_map]
      simp only [Function.comp_def, wildcard, Pattern.reads_singleton]
      match symbols with
      | [] => simp [lookup, List.find?_eq_none.2]
      | [symbol] =>
        have hget : t.get? state symbol = row.get? symbol := by
          rw [SingleTable.get?, hrow]
          rfl
        rw [lookup, hget, Dict.get?_eq_find?, Option.map_map]
        simp [Function.comp_def]
      | _ :: _ :: _ => simp [lookup, List.find?_eq_none.2]
  | multi t =>
    cases hrules : (t.states.get? state).join with
    | none => simp [lookup, MultiTable.find?, transitions, hrules]
    | some rules =>
      simp [lookup, MultiTable.find?, transitions, hrules, wildcard, List.find?_map, Function.comp_def]

/-- The entries, each as a transition with the number of its edge. -/
def Outgoing.transitions : Outgoing → List (Transition × Nat)
  | .single entries => entries.entries.map fun x => (⟨[x.1], .single x.2.instruction⟩, x.2.edge)
  | .multi entries => entries.map fun x => (⟨x.1, .multi x.2.instruction⟩, x.2.edge)

namespace StateGraph

/-- The entries of a vertex, of which there are none where there is no such vertex. -/
def entries (g : StateGraph) (state : State) : List (Transition × Nat) :=
  ((g.outgoing? state).map Outgoing.transitions).getD []

theorem entries_graph (t : Table) (state : State) :
    t.graph.entries state =
      (t.transitions state).map fun r => (r, (t.matchOf state r.instruction).index) := by
  cases t with
  | single t =>
    rw [entries, outgoing?_single]
    cases hrow : (t.states.get? state).join with
    | none => simp [Table.transitions, hrow]
    | some row => simp [Table.transitions, hrow, Outgoing.transitions, Dict.map, Function.comp_def]
  | multi t =>
    rw [entries, outgoing?_multi]
    cases hrules : (t.states.get? state).join with
    | none => simp [Table.transitions, hrules]
    | some rules => simp [Table.transitions, hrules, Outgoing.transitions, Function.comp_def]

/-- The entry is the first of its state that reads the symbols, and leads along the edge; if `j` entries before it
lead to the same target, then its label is the one of the edge with the number `j`. -/
def Labelled (g : StateGraph) (state : State) (symbols : List Symbol) (r : Transition) (e : Edge)
    (label : String) : Prop :=
  ∃ before index after, g.entries state = before ++ (r, index) :: after ∧
    r.pattern.reads g.wildcard symbols = true ∧
    (∀ x ∈ before, x.1.pattern.reads g.wildcard symbols = false) ∧
    g.edges[index]? = some e ∧
    e.labels[(before.filter (·.1.instruction.target state == e.target)).length]? = some label

theorem Labelled.unique {g : StateGraph} {state : State} {symbols : List Symbol} {r r' : Transition} {e e' : Edge}
    {label label' : String} (h : g.Labelled state symbols r e label) (h' : g.Labelled state symbols r' e' label') :
    e = e' ∧ label = label' := by
  obtain ⟨before, index, after, hentries, hreads, hbefore, hedge, hlabel⟩ := h
  obtain ⟨before', index', after', hentries', hreads', hbefore', hedge', hlabel'⟩ := h'
  have hfirst := span_append_cons (x := (r, index)) after hbefore hreads
  rw [← hentries, hentries', span_append_cons (x := (r', index')) after' hbefore' hreads'] at hfirst
  obtain ⟨rfl, hcons⟩ := Prod.mk.inj hfirst
  obtain ⟨hentry, -⟩ := List.cons.inj hcons
  obtain ⟨-, rfl⟩ := Prod.mk.inj hentry
  obtain rfl := Option.some.inj (hedge.symm.trans hedge')
  exact ⟨rfl, Option.some.inj (hlabel.symm.trans hlabel')⟩

theorem exists_labelled {t : Table} {state : State} {symbols : List Symbol} {i : Instruction}
    (h : t.lookup state symbols = some i) :
    ∃ r, r.instruction = i ∧ r.pattern.reads t.wildcard symbols = true ∧
      t.graph.Labelled state symbols r (t.edge state (i.target state)) r.label := by
  have hstate : state ∈ t.states := Table.mem_states_of_lookup h
  rw [Table.lookup_eq_find?, Option.map_eq_some_iff] at h
  obtain ⟨r, hr, rfl⟩ := h
  obtain ⟨hreads, before, after, hrow, hbefore⟩ := List.find?_eq_some_iff_append.1 hr
  let entry (q : Transition) : Transition × Nat := (q, (t.matchOf state q.instruction).index)
  refine ⟨r, rfl, hreads, before.map entry, (entry r).2, after.map entry, ?_, hreads, ?_, ?_, ?_⟩
  · rw [entries_graph, hrow, List.map_append, List.map_cons]
  · intro x hx
    obtain ⟨q, hq, rfl⟩ := List.mem_map.1 hx
    exact (Bool.not_eq_true' _).mp (hbefore q hq)
  · rw [Table.edges_graph]
    exact Table.getElem?_edges_matchOf hstate (List.mem_of_find?_eq_some hr)
  · show (((t.transitions state).filter _).map Transition.label)[_]? = _
    rw [List.filter_map, List.length_map, List.getElem?_map, hrow]
    have hfirst := getElem?_filter_append_cons
      (p := fun q => q.instruction.target state == r.instruction.target state) before after (beq_self_eq_true _)
    exact congrArg (Option.map Transition.label) hfirst

end StateGraph

/-! ## Steps -/

namespace Transition

/-- What the three characters for a tape tell of a step with the transition; `t` is the tape before the step and `t'` the
tape after it. -/
structure Tells (wildcard : Option Symbol) (r : Transition) (tape : Nat) (t t' : Tape) (read written move : Char) :
    Prop where
  reads : r.pattern[tape]? ≠ wildcard → read = Symbol.visible t.read
  readsAny : ∀ w, wildcard = some w → r.pattern[tape]? = some w → read = Symbol.visible w
  writes : r.pattern[tape]? ≠ wildcard ∨ r.instruction.writeFor tape ≠ none →
    written = Symbol.visible (t'.cell t.position)
  keepsAny : ∀ w, wildcard = some w → r.pattern[tape]? = some w → r.instruction.writeFor tape = none →
    written = Symbol.visible w
  moves : ∃ d : Direction, move = d.letter ∧ t'.position = t.position + d.offset

/-- The label has three parts, each with a character for each tape, and these tell what the step does. -/
def TellsAll (wildcard : Option Symbol) (r : Transition) (c next : Config) (label : String) : Prop :=
  ∃ reads writes moves : List Char,
    label.toList = reads ++ [' ', '\u2192', ' '] ++ writes ++ ',' :: moves ∧
    reads.length = c.tapes.length ∧ writes.length = c.tapes.length ∧ moves.length = c.tapes.length ∧
    ∀ (tape : Nat) (t : Tape), c.tapes[tape]? = some t → ∃ t' read written move,
      next.tapes[tape]? = some t' ∧ reads[tape]? = some read ∧ writes[tape]? = some written ∧
        moves[tape]? = some move ∧ r.Tells wildcard tape t t' read written move

variable {wildcard : Option Symbol} {r : Transition} {tape : Nat} {t : Tape} {symbols : List Symbol} {c : Config}

/-- The characters come from the pattern and the instruction.  Where the pattern has no wildcard its character is the
symbol that was read, so that it may stand for what an instruction without a write leaves in the cell. -/
theorem tells_apply (hreads : r.pattern.reads wildcard symbols = true) (ht : symbols[tape]? = some t.read)
    {x : Symbol} (hx : r.pattern[tape]? = some x) :
    r.Tells wildcard tape t ((r.instruction.actionFor tape).apply t) (Symbol.visible x)
      (Symbol.visible ((r.instruction.writeFor tape).getD x)) (r.instruction.moveFor tape).letter := by
  have hlength : tape < r.pattern.length := (List.getElem?_eq_some_iff.1 hx).1
  have hread : r.pattern[tape]? ≠ wildcard → x = t.read := by
    intro hne
    have hsame := ((Pattern.reads_iff.1 hreads).2 tape hlength).resolve_left hne
    rw [hx, ht] at hsame
    exact Option.some.inj hsame
  have hcell : ((r.instruction.actionFor tape).apply t).cell t.position =
      (r.instruction.writeFor tape).getD t.read := Action.cell_apply_position _ t
  exact {
    reads := fun hne => congrArg Symbol.visible (hread hne)
    readsAny := fun w _ hw => congrArg Symbol.visible (Option.some.inj (hx.symm.trans hw))
    writes := by
      intro h
      rw [hcell]
      cases hwrite : r.instruction.writeFor tape with
      | some y => rfl
      | none => exact congrArg Symbol.visible (hread (h.resolve_right fun hne => hne hwrite))
    keepsAny := by
      intro w _ hw hnone
      rw [hnone]
      exact congrArg Symbol.visible (Option.some.inj (hx.symm.trans hw))
    moves := ⟨_, rfl, Action.position_apply _ t⟩ }

theorem tellsAll_execute (hreads : r.pattern.reads wildcard c.symbols = true) :
    r.TellsAll wildcard c (r.instruction.execute c) r.label := by
  have hlength : r.pattern.length = c.tapes.length :=
    (Pattern.length_eq_of_reads hreads).trans (Config.length_symbols c)
  refine ⟨_, _, _, String.toList_ofList, ?_, ?_, ?_, fun tape t ht => ?_⟩
  · rw [List.length_map, hlength]
  · rw [List.length_mapIdx, hlength]
  · rw [List.length_mapIdx, hlength]
  · have htape : tape < r.pattern.length := by
      rw [hlength]
      exact (List.getElem?_eq_some_iff.1 ht).1
    have hsymbol : c.symbols[tape]? = some t.read := by
      rw [Config.symbols, List.getElem?_map, ht]
      rfl
    have hx : r.pattern[tape]? = some r.pattern[tape] := List.getElem?_eq_getElem htape
    have htells := tells_apply hreads hsymbol hx
    refine ⟨_, _, _, _, ?_, ?_, ?_, ?_, htells⟩
    · rw [Instruction.getElem?_tapes_execute, ht]
      rfl
    · rw [List.getElem?_map, hx]
      rfl
    · rw [List.getElem?_mapIdx, hx]
      rfl
    · rw [List.getElem?_mapIdx, hx]
      rfl

end Transition

/-! ## Machines of a document -/

namespace Spec

/-- A machine that is read from a text is in some configuration, whatever has been done with it, and an instruction
applies.  Then the step goes along the edge that the graph has for the selected entry, and the label of this entry tells,
tape by tape, what is read, what is in the cell after the step, and how the head moves. -/
theorem label_of_parse {text : String} {s : Spec} (h : parse text = .ok s) (input : Option String)
    {os : List Operation} {c : Config} (hc : (s.table.control.session os { s with input := input }.initial).2 = c)
    {i : Instruction} (hi : s.table.control.next? c = some i) :
    ∃ r e label next,
      r.instruction = i ∧ s.table.graph.Labelled c.state c.symbols r e label ∧
      (s.table.graph.find? c.state c.symbols).map (fun m => (m.instruction, m.edge)) = some (i, e) ∧
      s.table.control.step c = .done i next ∧ e.source = c.state ∧ e.target = next.state ∧
      c.tapes.length = s.tapes ∧ r.TellsAll s.table.wildcard c next label := by
  have hvalid : s.Valid := valid_of_parse h
  have hadmits : s.table.Admits c := hc ▸ ((hvalid.admits_initial input).session hvalid.table os).2
  obtain ⟨r, rfl, hreads, hlabelled⟩ := StateGraph.exists_labelled hi
  refine ⟨r, _, _, _, rfl, hlabelled, ?_, hvalid.table.fitting.control.step_of_next? hadmits.tapes hi, rfl, rfl,
    hadmits.tapes.trans hvalid.tapes, Transition.tellsAll_execute hreads⟩
  have hlookup : s.table.lookup c.state c.symbols = some r.instruction := hi
  rw [StateGraph.find?_graph, hlookup]
  rfl

/-- Two entries lead to `b`; the second leaves the wildcard where it is, and writes a space. -/
def spacing : String := "\n".intercalate [
  "type: 3tape",
  "blank: _",
  "wild: '*'",
  "start state: a",
  "table:",
  "  a:",
  "    '1**': \x7bnext: b\x7d",
  "    '_**': \x7bwrite: '* *', move: SLR, next: b\x7d",
  "  b:",
  ""]

def spacing.instruction : Instruction :=
  .multi ⟨some [none, some ' ', none], some [.stay, .left, .right], some "b"⟩

theorem exists_spacing :
    ∃ s, parse spacing = .ok s ∧ s.start = "a" ∧ s.table.control.next? s.initial = some spacing.instruction ∧
      s.table.graph.Labelled s.start s.initial.symbols ⟨['_', '*', '*'], spacing.instruction⟩
        ⟨"a", "b", ["1** \u2192 1**,SSS", "_** \u2192 _\u2423*,SLR"]⟩ "_** \u2192 _\u2423*,SLR" := by
  have hread : (parse spacing).toOption.map (fun s => (s.start, s.table.control.next? s.initial)) =
      some ("a", some spacing.instruction) := by
    decide +kernel
  have hdrawn : (parse spacing).toOption.map (fun s => (s.table.graph.entries s.start, s.table.graph.edges,
      (s.table.graph.entries s.start).map (·.1.pattern.reads s.table.graph.wildcard s.initial.symbols))) =
      some ([(⟨['1', '*', '*'], .multi ⟨none, none, some "b"⟩⟩, 0), (⟨['_', '*', '*'], spacing.instruction⟩, 0)],
        [⟨"a", "b", ["1** \u2192 1**,SSS", "_** \u2192 _\u2423*,SLR"]⟩], [false, true]) := by
    decide +kernel
  obtain ⟨s, hs, hparts⟩ := exists_of_toOption_map hread
  obtain ⟨hstart, hi⟩ := Prod.mk.inj hparts
  rw [hs] at hdrawn
  obtain ⟨hentries, hrest⟩ := Prod.mk.inj (Option.some.inj hdrawn)
  obtain ⟨hedges, hreads⟩ := Prod.mk.inj hrest
  rw [hentries] at hreads
  obtain ⟨hfirst, hreads⟩ := List.cons.inj hreads
  refine ⟨s, hs, hstart, hi, [_], 0, [], hentries, List.head_eq_of_cons_eq hreads, ?_, ?_, ?_⟩
  · rwa [List.forall_mem_singleton]
  · rw [hedges]
    rfl
  · rw [hstart]
    decide

theorem label_of_parse_spacing :
    ∃ s, parse spacing = .ok s ∧ s.table.control.next? s.initial = some spacing.instruction ∧
      ∃ r e label next, r.instruction = spacing.instruction ∧
        s.table.graph.Labelled s.start s.initial.symbols r e label ∧
        s.table.control.step s.initial = .done spacing.instruction next ∧ e.source = "a" ∧ e.target = "b" ∧
        e.labels = ["1** \u2192 1**,SSS", "_** \u2192 _\u2423*,SLR"] ∧ label = "_** \u2192 _\u2423*,SLR" ∧
        r.TellsAll s.table.wildcard s.initial next label := by
  obtain ⟨s, hs, hstart, hi, hspelled⟩ := exists_spacing
  obtain ⟨r, e, label, next, hr, hlabelled, -, hstep, -, -, -, htells⟩ :=
    @label_of_parse _ s hs s.input [] _ rfl _ hi
  obtain ⟨-, -, rfl⟩ := Control.step_eq_done_iff.1 hstep
  obtain ⟨rfl, rfl⟩ := hlabelled.unique hspelled
  exact ⟨s, hs, hi, r, _, _, _, hr, hlabelled, hstep, rfl, rfl, rfl, rfl, htells⟩

end Spec

end TapeMachine
