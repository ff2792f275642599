import Mathlib.Data.Finset.Card
import Mathlib.Logic.Relation
import TapeMachine.Analysis
import TapeMachine.Proofs.Graph.Control
import TapeMachine.Proofs.Machine.Invariant
import TapeMachine.Proofs.Machine.Session

/-!
# Which states are reached

The search that warns of unreachable states finds the states to which a path leads in the graph of the
table, and no others.  A machine goes along the edges of that graph, so that it is never in a state of
which it was warned, whatever is done with its tapes in between.
-/

namespace TapeMachine

/-! ## Paths -/

namespace StateGraph

/-- Some edge goes from the one state to the other. -/
def Leads (g : StateGraph) (source target : State) : Prop :=
  ∃ e ∈ g.edges, e.source = source ∧ e.target = target

/-- Some path goes from the one state to the other; it may be empty. -/
def Reaches (g : StateGraph) : State → State → Prop := Relation.ReflTransGen g.Leads

theorem leads_graph_iff {t : Table} {source target : State} :
    t.graph.Leads source target ↔ target ∈ t.successors source := by
  constructor
  · rintro ⟨e, he, rfl, rfl⟩
    rw [Table.edges_graph] at he
    obtain ⟨state, -, hedge⟩ := List.mem_flatMap.1 he
    obtain ⟨target, htarget, rfl⟩ := List.mem_map.1 hedge
    rw [Table.successors_eq]
    exact List.mem_eraseDups.1 htarget
  · rw [Table.successors_eq]
    intro h
    have hs : source ∈ t.states := by
      by_contra hs
      rw [Table.transitions_of_not_mem hs] at h
      cases h
    rw [Leads, Table.edges_graph]
    refine ⟨t.edge source target, List.mem_flatMap.2 ⟨source, hs, ?_⟩, rfl, rfl⟩
    exact List.mem_map_of_mem (List.mem_eraseDups.2 h)

end StateGraph

/-! ## The search -/

namespace Table

variable {t : Table} {seen : List State} {start u : State}

/-- No transition leads out of the states. -/
def Closed (t : Table) (seen : List State) : Prop := ∀ s ∈ seen, ∀ u ∈ t.successors s, u ∈ seen

theorem frontier_eq_nil_iff : t.frontier seen = [] ↔ t.Closed seen := by
  rw [List.eq_nil_iff_forall_not_mem]
  simp only [mem_frontier, not_and, not_not, Closed]
  exact ⟨fun h s hs u hu => h u ⟨s, hs, hu⟩, fun h u ⟨s, hs, hu⟩ => h s hs u hu⟩

theorem reach_of_closed (h : t.Closed seen) (n : Nat) : t.reach n seen = seen := by
  cases n with
  | zero => rfl
  | succ n => rw [reach, frontier_eq_nil_iff.2 h, List.isEmpty_nil, if_pos rfl]

theorem exists_reaches_of_mem_reach {n : Nat} (h : u ∈ t.reach n seen) :
    ∃ s ∈ seen, t.graph.Reaches s u := by
  induction n generalizing seen with
  | zero => exact ⟨u, h, .refl⟩
  | succ n ih =>
    unfold reach at h
    split at h
    · exact ⟨u, h, .refl⟩
    · obtain ⟨s, hs, hpath⟩ := ih h
      rcases List.mem_append.1 hs with hs | hs
      · exact ⟨s, hs, hpath⟩
      · obtain ⟨⟨s', hs', hsucc⟩, -⟩ := mem_frontier.1 hs
        exact ⟨s', hs', hpath.head (StateGraph.leads_graph_iff.2 hsucc)⟩

/-- The declared states that are still to be found. -/
def unseen (t : Table) (seen : List State) : Finset State := t.states.toFinset \ seen.toFinset

theorem mem_unseen : u ∈ t.unseen seen ↔ u ∈ t.states ∧ u ∉ seen := by
  rw [unseen, Finset.mem_sdiff, List.mem_toFinset, List.mem_toFinset]

theorem card_unseen_lt (hu : u ∈ t.frontier seen) (hs : u ∈ t.states) :
    (t.unseen (seen ++ t.frontier seen)).card < (t.unseen seen).card := by
  have hsubset : t.unseen (seen ++ t.frontier seen) ⊆ t.unseen seen := by
    intro x hx
    rw [mem_unseen, List.mem_append] at hx
    exact mem_unseen.2 ⟨hx.1, fun h => hx.2 (.inl h)⟩
  have hfound : u ∉ t.unseen (seen ++ t.frontier seen) := by
    rw [mem_unseen, List.mem_append]
    exact fun h => h.2 (.inr hu)
  have hmissing : u ∈ t.unseen seen := mem_unseen.2 ⟨hs, (mem_frontier.1 hu).2⟩
  exact Finset.card_lt_card ((Finset.ssubset_iff_of_subset hsubset).2 ⟨u, hmissing, hfound⟩)

/-- Nothing leads on from states that are not declared. -/
theorem closed_append_frontier (h : ∀ u ∈ t.frontier seen, u ∉ t.states) :
    t.Closed (seen ++ t.frontier seen) := by
  intro s hs u hu
  rcases List.mem_append.1 hs with hs | hs
  · by_cases hseen : u ∈ seen
    · exact List.mem_append_left _ hseen
    · exact List.mem_append_right _ (mem_frontier.2 ⟨⟨s, hs, hu⟩, hseen⟩)
  · rw [successors_eq, transitions_of_not_mem (h s hs)] at hu
    cases hu

/-- There are enough rounds if there are more of them than declared states to be found: every round finds
one of these, but for the last two. -/
theorem closed_reach {n : Nat} (h : (t.unseen seen).card < n) : t.Closed (t.reach n seen) := by
  induction n generalizing seen with
  | zero => exact absurd h (Nat.not_lt_zero _)
  | succ n ih =>
    unfold reach
    split
    · rename_i hnew
      exact frontier_eq_nil_iff.1 (List.isEmpty_iff.1 hnew)
    · by_cases hdeclared : ∃ u ∈ t.frontier seen, u ∈ t.states
      · obtain ⟨u, hu, hs⟩ := hdeclared
        have hless := card_unseen_lt hu hs
        exact ih (by omega)
      · have hclosed := closed_append_frontier fun u hu hs => hdeclared ⟨u, hu, hs⟩
        rwa [reach_of_closed hclosed]

theorem mem_reachableFrom_iff : u ∈ t.reachableFrom start ↔ t.graph.Reaches start u := by
  constructor
  · intro h
    obtain ⟨s, hs, hpath⟩ := exists_reaches_of_mem_reach h
    rwa [List.mem_singleton.1 hs] at hpath
  · intro h
    have hrounds : (t.unseen [start]).card < t.states.length + 1 := by
      have hcard : (t.unseen [start]).card ≤ t.states.toFinset.card :=
        Finset.card_le_card Finset.sdiff_subset
      have hlength := List.toFinset_card_le t.states
      omega
    induction h with
    | refl => exact subset_reach t _ (List.mem_singleton.2 rfl)
    | tail _ hedge ih => exact closed_reach hrounds _ ih _ (StateGraph.leads_graph_iff.1 hedge)

/-! ## Machines -/

variable {c : Config}

theorem leads_of_step {i : Instruction} {next : Config} (h : t.control.step c = .done i next) :
    t.graph.Leads c.state next.state := by
  obtain ⟨hi, -, rfl⟩ := Control.step_eq_done_iff.1 h
  obtain ⟨r, hr, rfl⟩ := exists_transition_of_lookup hi
  exact StateGraph.leads_graph_iff.2 (mem_successors.2 ⟨r, hr, rfl⟩)

/-- Steps go along edges, and edits of the tapes leave the state alone. -/
theorem reaches_session (os : List Operation) (c : Config) :
    t.graph.Reaches c.state (t.control.session os c).2.state := by
  refine Control.session_invariant (P := fun d => t.graph.Reaches c.state d.state) ?_ ?_ .refl
  · intro d i next hd hs
    exact hd.tail (leads_of_step hs)
  · intro tape e _ d next hd hm
    obtain ⟨-, rfl⟩ := Config.modifyTape_eq_ok_iff.1 hm
    exact hd

end Table

/-! ## Warnings -/

namespace Spec

theorem mem_unreachableStates {s : Spec} {q : State} :
    q ∈ s.unreachableStates ↔ q ∈ s.table.states ∧ ¬ s.table.graph.Reaches s.start q := by
  simp only [unreachableStates, List.mem_filter, decide_eq_true_eq, Table.mem_reachableFrom_iff]

theorem unreachableStates_mem_warnings_iff {s : Spec} {states : List State} :
    .unreachableStates states ∈ s.warnings ↔ states ≠ [] ∧ states = s.unreachableStates := by
  simp only [warnings, List.mem_append, List.mem_ite_nil_left, List.mem_singleton, reduceCtorEq, and_false,
    or_false, Warning.unreachableStates.injEq, List.isEmpty_iff]
  constructor
  · rintro ⟨hne, rfl⟩
    exact ⟨hne, rfl⟩
  · rintro ⟨hne, rfl⟩
    exact ⟨hne, rfl⟩

/-- The warning of unreachable states is given if and only if there is no path from the start to some
declared state.  It then lists all of these states and no others, in order of declaration and each once.  No
machine that starts as the specification says is ever in one of them, with whatever tapes, after however
many steps, and with whatever edits of the tapes in between. -/
theorem unreachable_warning (s : Spec) :
    ((∃ states, .unreachableStates states ∈ s.warnings) ↔
      ∃ q ∈ s.table.states, ¬ s.table.graph.Reaches s.start q) ∧
    ∀ states, .unreachableStates states ∈ s.warnings →
      (∀ q, q ∈ states ↔ q ∈ s.table.states ∧ ¬ s.table.graph.Reaches s.start q) ∧
      states.Sublist s.table.states ∧ states.Nodup ∧
      ∀ tapes os, (s.table.control.session os ⟨s.start, tapes, 0⟩).2.state ∉ states := by
  simp only [unreachableStates_mem_warnings_iff]
  constructor
  · constructor
    · rintro ⟨_, hne, rfl⟩
      obtain ⟨q, hq⟩ := List.exists_mem_of_ne_nil _ hne
      exact ⟨q, mem_unreachableStates.1 hq⟩
    · rintro ⟨q, hq⟩
      exact ⟨_, List.ne_nil_of_mem (mem_unreachableStates.2 hq), rfl⟩
  · rintro _ ⟨-, rfl⟩
    have hsublist : s.unreachableStates.Sublist s.table.states := List.filter_sublist
    refine ⟨fun q => mem_unreachableStates, hsublist, s.table.nodup_states.sublist hsublist, ?_⟩
    intro tapes os hmem
    exact (mem_unreachableStates.1 hmem).2 (Table.reaches_session os ⟨s.start, tapes, 0⟩)

/-- A document with two states to which no transition leads from the start, although transitions lead from
one of them to the start and between the two. -/
def stranded : String := "\n".intercalate [
  "blank: _",
  "start state: a",
  "table: \x7bd: \x7b_: \x7bL: c\x7d\x7d, a: \x7b_: R, [0, 1]: b\x7d, b: , c: \x7b_: d, 1: \x7bR: a\x7d\x7d\x7d"]

theorem unreachable_warning_stranded :
    ∃ s, parse stranded = .ok s ∧ .unreachableStates ["d", "c"] ∈ s.warnings ∧
      ¬ s.table.graph.Reaches s.start "c" ∧
      ∀ tapes os, (s.table.control.session os ⟨s.start, tapes, 0⟩).2.state ≠ "c" := by
  have hread : ((parse stranded).toOption.map warnings) = some [.unreachableStates ["d", "c"]] := by
    decide +kernel
  obtain ⟨s, hs, hwarnings⟩ := exists_of_toOption_map hread
  have hmem : .unreachableStates ["d", "c"] ∈ s.warnings := hwarnings ▸ List.mem_singleton.2 rfl
  obtain ⟨hstates, -, -, hnever⟩ := (unreachable_warning s).2 _ hmem
  refine ⟨s, hs, hmem, ((hstates "c").1 (by decide)).2, fun tapes os hstate => ?_⟩
  refine hnever tapes os ?_
  rw [hstate]
  exact List.mem_cons_of_mem _ (List.mem_singleton.2 rfl)

end Spec

end TapeMachine
