import TapeMachine.Proofs.Document.Grammar

/-!
# The meaning of documents

What a document says of a state and the symbols read, as rules on its rows.  An instruction is described by
what it does on each tape and by where it leads, so that a part that is left out and one that does nothing
mean the same.  Of several entries with one name the last one counts; in an instruction for three tapes, the
last one that is not null.
-/

namespace TapeMachine

open Yaml (Value)

/-- What an instruction does, tape by tape, and the state it names. -/
structure Effect where
  actions : List Action
  next : Option State
deriving DecidableEq

def Instruction.effect (i : Instruction) (tapes : Nat) : Effect :=
  ⟨(List.range tapes).map i.actionFor, i.next⟩

/-! ## Names -/

/-- The last value that the mapping has under the name. -/
def Last (m : Mapping) (name : String) (v : Value) : Prop :=
  ∃ before key after, m = before ++ (key, v) :: after ∧ key.HasText name ∧ ∀ e ∈ after, ¬ e.1.HasText name

/-- What a field of a document says; null says nothing. -/
def Field (m : Mapping) (name : String) : Option Value → Prop
  | none => ∀ v, Last m name v → v.IsNull
  | some u => ∃ v, Last m name v ∧ ¬ v.IsNull ∧ v.untagged = u

/-- The state that a value names; null names none. -/
def LeadsTo (v : Value) : Option State → Prop
  | none => v.IsNull
  | some s => v.HasText s

/-- The text of the last value under the name that is not null. -/
def Keeps (m : Mapping) (name : String) : Option String → Prop
  | none => ∀ v, Says m name v → v.IsNull
  | some s => ∃ before key v after, m = before ++ (key, v) :: after ∧ key.HasText name ∧ v.HasText s ∧
      ∀ e ∈ after, e.1.HasText name → e.2.IsNull

/-! ## Instructions -/

def IsDirection (s : String) : Prop := ∃ d : Direction, s = String.singleton d.letter

/-- The text stands for one direction on each of three tapes. -/
def Spells (s : String) (moves : List Direction) : Prop :=
  moves.length = 3 ∧ s = String.ofList (moves.map Direction.letter)

/-- The instruction of a value for one tape, where the synonyms are those of the given mapping. -/
inductive SingleMeans : Mapping → Value → Effect → Prop
  | direction {synonyms : Mapping} {v : Value} {d : Direction} :
      v.untagged = .string (String.singleton d.letter) → SingleMeans synonyms v ⟨[⟨none, d⟩], none⟩
  | synonym {synonyms : Mapping} {v body : Value} {s : String} {effect : Effect} :
      v.untagged = .string s → ¬ IsDirection s → Last synonyms s body → SingleMeans [] body effect →
      SingleMeans synonyms v effect
  | state {synonyms : Mapping} {v : Value} {s : String} :
      v.untagged = .string s → ¬ IsDirection s → (∀ body, ¬ Says synonyms s body) →
      SingleMeans synonyms v ⟨[⟨none, .stay⟩], some s⟩
  | mapping {synonyms before after : Mapping} {v key x : Value} {d : Direction} {write : Option Symbol}
      {next : Option State} :
      v.untagged = .mapping (before ++ (key, x) :: after) → key.HasText (String.singleton d.letter) →
      (∀ e ∈ before ++ after, ∀ s, e.1.HasText s → ¬ IsDirection s) → LeadsTo x next →
      (∀ c, write = some c ↔ ∃ u, Field (before ++ (key, x) :: after) "write" (some u) ∧
        u.HasText (String.singleton c)) →
      SingleMeans synonyms v ⟨[⟨write, d⟩], next⟩

/-- The instruction of a value for three tapes. -/
inductive MultiMeans (wildcard : Option Symbol) : Mapping → Value → Effect → Prop
  | moves {synonyms : Mapping} {v : Value} {s : String} {moves : List Direction} :
      v.untagged = .string s → Spells s moves →
      MultiMeans wildcard synonyms v ⟨moves.map fun d => ⟨none, d⟩, none⟩
  | synonym {synonyms : Mapping} {v body : Value} {s : String} {effect : Effect} :
      v.untagged = .string s → (∀ moves, ¬ Spells s moves) → Last synonyms s body →
      MultiMeans wildcard [] body effect → MultiMeans wildcard synonyms v effect
  | mapping {synonyms m : Mapping} {v : Value} {write move next : Option String}
      {moves : List Direction} :
      v.untagged = .mapping m → Keeps m "write" write → Keeps m "move" move → Keeps m "next" next →
      Spells (move.getD "SSS") moves →
      MultiMeans wildcard synonyms v ⟨(List.range 3).map fun tape =>
        ⟨(write.bind (·.toList[tape]?)).filter (some · ≠ wildcard), moves.getD tape .stay⟩, next⟩

def Means : MachineType → Option Symbol → Mapping → Value → Effect → Prop
  | .oneTape, _ => SingleMeans
  | .threeTape, wildcard => MultiMeans wildcard

/-! ## Rows -/

/-- The key of a row stands for the symbols read: for one tape it is the symbol or a sequence with it, for
three tapes it has the wildcard or the symbol of the tape in each place. -/
def Matches : MachineType → Option Symbol → Value → List Symbol → Prop
  | .oneTape, _, key, symbols => ∃ cs, KeySymbols key cs ∧ ∃ c ∈ cs, symbols = [c]
  | .threeTape, wildcard, key, symbols => ∃ s : String, key.HasText s ∧ s.length = symbols.length ∧
      ∀ tape < symbols.length, s.toList[tape]? = wildcard ∨ s.toList[tape]? = symbols[tape]?

/-- What the rows of a table say of a state and the symbols read: nothing, or what the first row that matches
the symbols means. -/
inductive Prescribes (type : MachineType) (wildcard : Option Symbol) (synonyms rows : Mapping)
    (state : State) (symbols : List Symbol) : Option Effect → Prop
  | undeclared : (∀ e ∈ rows, ¬ e.1.HasText state) → Prescribes type wildcard synonyms rows state symbols none
  | halting {e : Value × Value} : e ∈ rows → e.1.HasText state →
      e.2.IsNull ∨ e.2.untagged = .mapping [] →
      Prescribes type wildcard synonyms rows state symbols none
  | unmatched {e : Value × Value} {m : Mapping} : e ∈ rows → e.1.HasText state → e.2.untagged = .mapping m →
      (∀ r ∈ m, ¬ Matches type wildcard r.1 symbols) →
      Prescribes type wildcard synonyms rows state symbols none
  | first {e r : Value × Value} {before after : Mapping} {effect : Effect} : e ∈ rows →
      e.1.HasText state → e.2.untagged = .mapping (before ++ r :: after) →
      Matches type wildcard r.1 symbols → (∀ r' ∈ before, ¬ Matches type wildcard r'.1 symbols) →
      Means type wildcard synonyms r.2 effect →
      Prescribes type wildcard synonyms rows state symbols (some effect)

/-! ## Documents -/

/-- The parts of a document on which its table depends. -/
structure Declares (m : Mapping) (type : MachineType) (wildcard : Option Symbol)
    (synonyms rows : Mapping) : Prop where
  type : type = .threeTape ↔ ∃ v, Field m "type" (some v) ∧ v.HasText "3tape"
  wildcard : ∀ c, wildcard = some c ↔ ∃ v, Field m "wild" (some v) ∧ v.HasText (String.singleton c)
  synonyms : Field m "synonyms" none ∧ synonyms = [] ∨ Field m "synonyms" (some (.mapping synonyms))
  rows : Field m "table" (some (.mapping rows))

end TapeMachine
