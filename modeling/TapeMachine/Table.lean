import TapeMachine.Dict
import TapeMachine.Instruction

/-!
# Transition tables

A table gives each of its states a row of transitions, or none, in which case the state is a halting
state.  For one tape a row has one instruction for a symbol; for several tapes it is a list of rules of
which the first that applies is taken.  `Table.transitions` is the row as a list for both kinds.
-/

namespace TapeMachine

structure Rule where
  pattern : Pattern
  instruction : MultiInstruction
deriving DecidableEq

structure SingleTable where
  states : Dict State (Option (Dict Symbol SingleInstruction))
deriving DecidableEq

structure MultiTable where
  tapes : Nat
  wildcard : Option Symbol
  states : Dict State (Option (List Rule))
deriving DecidableEq

inductive Table where
  | single (t : SingleTable)
  | multi (t : MultiTable)
deriving DecidableEq

/-- The instruction for the symbols that a pattern reads. -/
structure Transition where
  pattern : Pattern
  instruction : Instruction
deriving DecidableEq

/-- The instruction for a state and a symbol. -/
def SingleTable.get? (t : SingleTable) (state : State) (symbol : Symbol) :
    Option SingleInstruction :=
  (t.states.get? state).join.bind (·.get? symbol)

/-- The first rule of a state whose pattern reads the symbols. -/
def MultiTable.find? (t : MultiTable) (state : State) (symbols : List Symbol) : Option Rule :=
  (t.states.get? state).join.bind (·.find? (·.pattern.reads t.wildcard symbols))

namespace Table

def tapes : Table → Nat
  | .single _ => 1
  | .multi t => t.tapes

def wildcard : Table → Option Symbol
  | .single _ => none
  | .multi t => t.wildcard

/-- The states in order of declaration. -/
def states : Table → List State
  | .single t => t.states.keys
  | .multi t => t.states.keys

def contains : Table → State → Bool
  | .single t, state => t.states.contains state
  | .multi t, state => t.states.contains state

/-- Whether the state is declared without transitions. -/
def isHalting : Table → State → Bool
  | .single t, state => t.states.get? state == some none
  | .multi t, state => t.states.get? state == some none

/-- The transitions of a state, in order of declaration. -/
def transitions : Table → State → List Transition
  | .single t, state =>
    ((t.states.get? state).join.map (·.entries)).getD [] |>.map fun (symbol, i) =>
      ⟨[symbol], .single i⟩
  | .multi t, state =>
    (t.states.get? state).join.getD [] |>.map fun rule => ⟨rule.pattern, .multi rule.instruction⟩

/-- How many symbols or patterns there are in all rows. -/
def transitionCount : Table → Nat
  | .single t => (t.states.values.filterMap id).foldr (fun row n => row.size + n) 0
  | .multi t => (t.states.values.filterMap id).foldr (fun rules n => rules.length + n) 0

/-- The states to which the transitions of a state lead, one for each transition. -/
def successors : Table → State → List State
  | .single t, state =>
    ((t.states.get? state).join.map fun row => row.values.map fun i => i.next.getD state).getD []
  | .multi t, state =>
    ((t.states.get? state).join.map fun rules =>
      rules.map fun rule => rule.instruction.next.getD state).getD []

/-- The instruction for a state and the symbols under the heads. -/
def lookup : Table → State → List Symbol → Option Instruction
  | .single t, state, [symbol] => (t.get? state symbol).map .single
  | .single _, _, _ => none
  | .multi t, state, symbols => (t.find? state symbols).map fun rule => .multi rule.instruction

/-- Whether every instruction is for as many tapes as the table. -/
def Fitting (t : Table) : Prop :=
  ∀ state, ∀ r ∈ t.transitions state, r.instruction.fits t.tapes = true

/-- What a table keeps to so that a machine never leaves its states and never meets an instruction that is
not for its tapes, and no transition stands in another's place. -/
structure Valid (t : Table) : Prop where
  /-- An instruction leads to a state of the table. -/
  next : ∀ state, ∀ r ∈ t.transitions state, ∀ q, r.instruction.next = some q → q ∈ t.states
  /-- Only a halting state has no transitions. -/
  row : ∀ state ∈ t.states, t.isHalting state = true ∨ t.transitions state ≠ []
  distinct : ∀ state, ((t.transitions state).map Transition.pattern).Nodup
  width : ∀ state, ∀ r ∈ t.transitions state, r.pattern.length = t.tapes
  fitting : t.Fitting
  /-- The wildcard is not written. -/
  literal : ∀ state, ∀ r ∈ t.transitions state, ∀ tape c,
    r.instruction.writeFor tape = some c → t.wildcard ≠ some c

/-! ## Rows as lists -/

@[simp] theorem contains_eq_true {t : Table} {s : State} : t.contains s = true ↔ s ∈ t.states := by
  cases t <;> simp [contains, states]

theorem nodup_states (t : Table) : t.states.Nodup := by
  cases t with
  | single t => exact t.states.nodup_keys
  | multi t => exact t.states.nodup_keys

theorem transitions_of_not_mem {t : Table} {state : State} (h : state ∉ t.states) :
    t.transitions state = [] := by
  cases t with
  | single t => rw [transitions, Dict.get?_eq_none_iff.2 h]; rfl
  | multi t => rw [transitions, Dict.get?_eq_none_iff.2 h]; rfl

theorem transitions_single_eq_nil_or (t : SingleTable) (state : State) :
    (single t).transitions state = [] ∨ ∃ row, t.states.get? state = some (some row) ∧
      (single t).transitions state = row.entries.map fun x => ⟨[x.1], .single x.2⟩ := by
  rcases h : t.states.get? state with _ | _ | row
  · exact .inl (by simp [transitions, h])
  · exact .inl (by simp [transitions, h])
  · exact .inr ⟨row, rfl, by simp [transitions, h]⟩

theorem transitions_multi_eq_nil_or (t : MultiTable) (state : State) :
    (multi t).transitions state = [] ∨ ∃ rules, t.states.get? state = some (some rules) ∧
      (multi t).transitions state =
        rules.map fun rule => ⟨rule.pattern, .multi rule.instruction⟩ := by
  rcases h : t.states.get? state with _ | _ | rules
  · exact .inl (by simp [transitions, h])
  · exact .inl (by simp [transitions, h])
  · exact .inr ⟨rules, rfl, by simp [transitions, h]⟩

theorem mem_transitions_single {t : SingleTable} {state : State} {r : Transition} :
    r ∈ (single t).transitions state ↔
      ∃ row, t.states.get? state = some (some row) ∧
        ∃ x ∈ row.entries, r = ⟨[x.1], .single x.2⟩ := by
  match h : t.states.get? state with
  | none => simp [transitions, h]
  | some none => simp [transitions, h]
  | some (some row) => simp [transitions, h, eq_comm (a := r)]

theorem mem_transitions_multi {t : MultiTable} {state : State} {r : Transition} :
    r ∈ (multi t).transitions state ↔
      ∃ rules, t.states.get? state = some (some rules) ∧
        ∃ rule ∈ rules, r = ⟨rule.pattern, .multi rule.instruction⟩ := by
  match h : t.states.get? state with
  | none => simp [transitions, h]
  | some none => simp [transitions, h]
  | some (some rules) => simp [transitions, h, eq_comm (a := r)]

theorem fitting_iff {t : Table} :
    t.Fitting ↔ ∀ state ∈ t.states, ∀ r ∈ t.transitions state, r.instruction.fits t.tapes = true := by
  refine ⟨fun h state _ => h state, fun h state r hr => ?_⟩
  by_cases hs : state ∈ t.states
  · exact h state hs r hr
  · rw [transitions_of_not_mem hs] at hr
    cases hr

instance (t : Table) : Decidable t.Fitting := decidable_of_iff _ fitting_iff.symm

theorem lookup_single_eq_some_iff {t : SingleTable} {state : State} {symbols : List Symbol}
    {i : Instruction} :
    (single t).lookup state symbols = some i ↔
      ∃ symbol j, symbols = [symbol] ∧ t.get? state symbol = some j ∧ .single j = i := by
  match symbols with
  | [] => simp [lookup]
  | [symbol] => simp [lookup]
  | _ :: _ :: _ => simp [lookup]

theorem lookup_multi_eq_some_iff {t : MultiTable} {state : State} {symbols : List Symbol}
    {i : Instruction} :
    (multi t).lookup state symbols = some i ↔
      ∃ rule, t.find? state symbols = some rule ∧ .multi rule.instruction = i := by
  simp [lookup]

theorem exists_transition_of_lookup {t : Table} {state : State} {symbols : List Symbol}
    {i : Instruction} (h : t.lookup state symbols = some i) :
    ∃ r ∈ t.transitions state, r.instruction = i := by
  cases t with
  | single t =>
    obtain ⟨symbol, j, rfl, hj, rfl⟩ := lookup_single_eq_some_iff.1 h
    obtain ⟨row, hrow, hget⟩ := Option.bind_eq_some_iff.1 hj
    refine ⟨⟨[symbol], .single j⟩, ?_, rfl⟩
    simp only [transitions, hrow, Option.map_some, Option.getD_some, List.mem_map]
    exact ⟨(symbol, j), Dict.get?_eq_some_iff.1 hget, rfl⟩
  | multi t =>
    obtain ⟨rule, hrule, rfl⟩ := lookup_multi_eq_some_iff.1 h
    obtain ⟨rules, hrules, hfind⟩ := Option.bind_eq_some_iff.1 hrule
    refine ⟨⟨rule.pattern, .multi rule.instruction⟩, ?_, rfl⟩
    simp only [transitions, hrules, Option.getD_some, List.mem_map]
    exact ⟨rule, List.mem_of_find?_eq_some hfind, rfl⟩

theorem mem_states_of_lookup {t : Table} {state : State} {symbols : List Symbol} {i : Instruction}
    (h : t.lookup state symbols = some i) : state ∈ t.states := by
  obtain ⟨r, hr, -⟩ := exists_transition_of_lookup h
  by_cases hs : state ∈ t.states
  · exact hs
  · rw [transitions_of_not_mem hs] at hr
    cases hr

theorem Fitting.fits {t : Table} (ht : t.Fitting) {state : State} {symbols : List Symbol}
    {i : Instruction} (h : t.lookup state symbols = some i) : i.fits t.tapes = true := by
  obtain ⟨r, hr, rfl⟩ := exists_transition_of_lookup h
  exact ht state r hr

theorem successors_eq (t : Table) (state : State) :
    t.successors state = (t.transitions state).map (·.instruction.target state) := by
  cases t with
  | single t =>
    rw [successors, transitions]
    rcases t.states.get? state with _ | _ | row
    · rfl
    · rfl
    · simp only [Option.join_some, Option.map_some, Option.getD_some, Dict.values, List.map_map]
      rfl
  | multi t =>
    rw [successors, transitions]
    rcases t.states.get? state with _ | _ | rules
    · rfl
    · rfl
    · simp only [Option.join_some, Option.map_some, Option.getD_some, List.map_map]
      rfl

theorem mem_successors {t : Table} {s u : State} :
    u ∈ t.successors s ↔ ∃ r ∈ t.transitions s, r.instruction.target s = u := by
  rw [successors_eq, List.mem_map]

theorem length_flatMap_keys {ρ : Type} (size : ρ → Nat) {rows : List (State × Option ρ)}
    {transitions : State → List Transition}
    (h : ∀ x ∈ rows, (transitions x.1).length = (x.2.map size).getD 0) :
    ((rows.map Prod.fst).flatMap transitions).length =
      ((rows.map Prod.snd).filterMap id).foldr (fun row n => size row + n) 0 := by
  induction rows with
  | nil => rfl
  | cons x rows ih =>
    obtain ⟨hfirst, hrest⟩ := List.forall_mem_cons.1 h
    rw [List.map_cons, List.flatMap_cons, List.length_append, hfirst, ih hrest]
    obtain ⟨state, _ | row⟩ := x
    · exact Nat.zero_add _
    · rfl

theorem transitionCount_eq_length (t : Table) :
    t.transitionCount = (t.states.flatMap t.transitions).length := by
  cases t with
  | single t =>
    refine (length_flatMap_keys Dict.size fun x hx => ?_).symm
    obtain ⟨state, row⟩ := x
    rw [transitions, Dict.get?_eq_some_iff.2 hx]
    cases row with
    | none => rfl
    | some row => exact List.length_map _
  | multi t =>
    refine (length_flatMap_keys List.length fun x hx => ?_).symm
    obtain ⟨state, rules⟩ := x
    rw [transitions, Dict.get?_eq_some_iff.2 hx]
    cases rules with
    | none => rfl
    | some rules => exact List.length_map _

end Table

end TapeMachine
