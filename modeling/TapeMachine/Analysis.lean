import TapeMachine.Spec
import TapeMachine.Text.Quoted

/-!
# Likely mistakes

A machine that can run may still not be what was meant: it may have states that are never reached from
the start, and its input may hold symbols that no transition reads on the first tape.
-/

namespace TapeMachine

inductive Warning where
  | unreachableStates (states : List State)
  | unreadableSymbols (symbols : List Symbol)
deriving DecidableEq

def Warning.message : Warning → String
  | .unreachableStates states => "Unreachable states detected: " ++ ", ".intercalate states
  | .unreadableSymbols symbols =>
    "Input contains symbols not read by any transition: " ++ Text.quotedChars symbols

/-! ## Reachable states -/

namespace Table

/-- The states to which some state of `seen` leads and which are not among them. -/
def frontier (t : Table) (seen : List State) : List State :=
  ((seen.flatMap t.successors).filter (· ∉ seen)).eraseDups

/-- The states that are reached from `seen` in at most `n` rounds. -/
def reach (t : Table) : (n : Nat) → (seen : List State) → List State
  | 0, seen => seen
  | n + 1, seen => if (t.frontier seen).isEmpty then seen else reach t n (seen ++ t.frontier seen)

/-- Each round but the last finds a state, and no transition leads on from a state that is not
declared. -/
def reachableFrom (t : Table) (start : State) : List State := t.reach (t.states.length + 1) [start]

theorem mem_frontier {t : Table} {seen : List State} {u : State} :
    u ∈ t.frontier seen ↔ (∃ s ∈ seen, u ∈ t.successors s) ∧ u ∉ seen := by
  simp [frontier, List.mem_eraseDups]

theorem subset_reach (t : Table) (n : Nat) {seen : List State} {s : State} (h : s ∈ seen) :
    s ∈ t.reach n seen := by
  induction n generalizing seen with
  | zero => exact h
  | succ n ih =>
    unfold reach
    split
    · exact h
    · exact ih (List.mem_append_left _ h)

end Table

/-! ## Symbols that are read -/

/-- The symbols that have an instruction in some state. -/
def SingleTable.symbols (t : SingleTable) : List Symbol := (t.states.values.filterMap id).flatMap Dict.keys

/-- What stands in the first places of the patterns. -/
def MultiTable.firstSymbols (t : MultiTable) : List Symbol :=
  (t.states.values.filterMap id).flatten.filterMap (·.pattern.head?)

/-- The symbols that are read on the first tape, unless a wildcard there reads every symbol. -/
def Table.readable? : Table → Option (List Symbol)
  | .single t => some t.symbols
  | .multi t => if t.wildcard.any t.firstSymbols.contains then none else some t.firstSymbols

/-! ## Warnings -/

namespace Spec

/-- The declared states that are not reached from the start, in order of declaration. -/
def unreachableStates (s : Spec) : List State :=
  let reachable := s.table.reachableFrom s.start
  s.table.states.filter (· ∉ reachable)

/-- The symbols of the input, except the blank, that are not read on the first tape, in order of their
code points. -/
def unreadableSymbols (s : Spec) : List Symbol :=
  s.table.readable?.elim [] fun readable =>
    ((s.inputSymbols.filter fun c => c != s.blank && !readable.contains c).mergeSort
      (·.toNat ≤ ·.toNat)).eraseDups

def warnings (s : Spec) : List Warning :=
  (if s.unreachableStates.isEmpty then [] else [.unreachableStates s.unreachableStates]) ++
    (if s.unreadableSymbols.isEmpty then [] else [.unreadableSymbols s.unreadableSymbols])

theorem mem_unreadableSymbols {s : Spec} {c : Symbol} :
    c ∈ s.unreadableSymbols ↔
      c ∈ s.inputSymbols ∧ c ≠ s.blank ∧ ∃ readable, s.table.readable? = some readable ∧ c ∉ readable := by
  unfold unreadableSymbols
  cases s.table.readable? with
  | none => simp
  | some readable => simp [List.mem_eraseDups, List.mem_mergeSort]

end Spec

end TapeMachine
