import Mathlib.Data.List.Forall2
import TapeMachine.Document.Instruction
import TapeMachine.Spec

/-!
# The grammar of documents

Which values are documents, said by rules and without the order in which anything is checked.  The parts of
a mapping are named by the texts of their keys; a part that is null counts as left out.  An instruction is
judged in a scope: the declared states, and the names of the synonyms, which can be used in the table but
not in the definition of a synonym.
-/

namespace TapeMachine

open Yaml (Value)

/-! ## Values -/

namespace Yaml.Value

/-- The text of a value, which floating-point numbers, null and collections do not have. -/
inductive HasText : Value → String → Prop
  | string (s : String) : HasText (.string s) s
  | integer (i : Int) : HasText (.number (.integer i)) (toString i)
  | true : HasText (.bool true) "true"
  | false : HasText (.bool false) "false"
  | tagged {tag : String} {v : Value} {s : String} : HasText v s → HasText (.tagged tag v) s

def IsNull (v : Value) : Prop := v.untagged = .null

/-- A text of one character. -/
def IsSymbol (v : Value) : Prop := ∃ c : Symbol, HasText v (String.singleton c)

mutual

/-- Whether no key of a mapping in the value has a tag. -/
def untaggedKeys : Value → Bool
  | .sequence items => untaggedItems items
  | .mapping m => untaggedEntries m
  | .tagged _ v => untaggedKeys v
  | _ => true

def untaggedItems : List Value → Bool
  | [] => true
  | v :: items => untaggedKeys v && untaggedItems items

def untaggedEntries : List (Value × Value) → Bool
  | [] => true
  | (.tagged _ _, _) :: _ => false
  | (key, v) :: m => untaggedKeys key && untaggedKeys v && untaggedEntries m

end

end Yaml.Value

/-! ## Mappings -/

/-- The mapping has the value under the name. -/
def Says (m : Mapping) (name : String) (v : Value) : Prop := ∃ key, (key, v) ∈ m ∧ key.HasText name

def Requires (m : Mapping) (name : String) (P : Value → Prop) : Prop := ∃ v, Says m name v ∧ P v

/-- What the mapping has under the name, if it is not null. -/
def Permits (m : Mapping) (name : String) (P : Value → Prop) : Prop :=
  ∀ v, Says m name v → v.IsNull ∨ P v

/-! ## Instructions -/

/-- What an instruction can refer to. -/
structure Scope where
  states : List State
  synonyms : List String
  /-- Whether a synonym can be used. -/
  usable : Bool

def Scope.Declared (σ : Scope) (v : Value) : Prop := ∃ q ∈ σ.states, v.HasText q

/-- A text of one letter for each of three tapes. -/
def IsMoves (s : String) : Prop := s.length = 3 ∧ ∀ c ∈ s.toList, c ∈ ['L', 'R', 'S']

/-- An instruction for one tape. -/
inductive SingleForm (σ : Scope) (v : Value) : Prop
  | direction {s : String} : v.untagged = .string s → s ∈ ["L", "R", "S"] → SingleForm σ v
  | synonym {s : String} : v.untagged = .string s → σ.usable = true → s ∈ σ.synonyms → SingleForm σ v
  | state {s : String} : v.untagged = .string s → s ∉ σ.synonyms → s ∈ σ.states → SingleForm σ v
  | mapping {m : Mapping} {d : String} : v.untagged = .mapping m →
      (∀ e ∈ m, ∃ k ∈ ["write", "L", "R", "S"], e.1.HasText k) →
      d ∈ ["L", "R", "S"] → (∃ x, Says m d x ∧ (x.IsNull ∨ σ.Declared x)) →
      (∀ d' ∈ ["L", "R", "S"], ∀ x, Says m d' x → d' = d) →
      Permits m "write" Value.IsSymbol → SingleForm σ v

/-- An instruction for three tapes. -/
inductive MultiForm (σ : Scope) (v : Value) : Prop
  | moves {s : String} : v.untagged = .string s → IsMoves s → MultiForm σ v
  | synonym {s : String} : v.untagged = .string s → σ.usable = true → s ∈ σ.synonyms → MultiForm σ v
  | mapping {m : Mapping} : v.untagged = .mapping m →
      (∀ e ∈ m, ∃ k ∈ ["write", "move", "next"], e.1.HasText k) →
      Permits m "write" (fun x => ∃ s, x.HasText s ∧ s.length = 3) →
      Permits m "move" (fun x => ∃ s, x.HasText s ∧ IsMoves s) →
      Permits m "next" σ.Declared → MultiForm σ v

def Form : MachineType → Scope → Value → Prop
  | .oneTape => SingleForm
  | .threeTape => MultiForm

/-! ## Rows -/

/-- The symbols of a key for one tape. -/
inductive KeySymbols (key : Value) : List Symbol → Prop
  | one {c : Symbol} : key.HasText (String.singleton c) → KeySymbols key [c]
  | sequence {items : List Value} {cs : List Symbol} : key.untagged = .sequence items → items ≠ [] →
      List.Forall₂ (fun item c => item.HasText (String.singleton c)) items cs → KeySymbols key cs

/-- The keys of a row: no symbol occurs twice, respectively no pattern. -/
def RowKeys : MachineType → List Value → Prop
  | .oneTape, keys => ∃ css, List.Forall₂ KeySymbols keys css ∧ css.flatten.Nodup
  | .threeTape, keys =>
    ∃ ps : List String, List.Forall₂ Value.HasText keys ps ∧ (∀ p ∈ ps, p.length = 3) ∧ ps.Nodup

/-- What the table says of a state. -/
def IsRow (type : MachineType) (σ : Scope) (v : Value) : Prop :=
  v.IsNull ∨ ∃ m : Mapping, v.untagged = .mapping m ∧ RowKeys type (m.map Prod.fst) ∧
    ∀ e ∈ m, Form type σ e.2

/-! ## Documents -/

/-- The names of the synonyms of a document. -/
inductive SynonymNames (m : Mapping) (type : MachineType) (states : List State) : List String → Prop
  | none : (∀ v, Says m "synonyms" v → v.IsNull) → SynonymNames m type states []
  | mapping {v : Value} {bodies : Mapping} {names : List String} :
      Says m "synonyms" v → v.untagged = .mapping bodies →
      List.Forall₂ Value.HasText (bodies.map Prod.fst) names →
      (∀ e ∈ bodies, Form type ⟨states, names, false⟩ e.2) → SynonymNames m type states names

/-- A document of the given type, with the given rows, states and synonyms. -/
structure Describes (m : Mapping) (type : MachineType) (rows : Mapping) (states : List State)
    (synonyms : List String) : Prop where
  blank : Requires m "blank" Value.IsSymbol
  wild : Permits m "wild" Value.IsSymbol
  typed : match type with
    | .oneTape => Permits m "type" (Value.HasText · "1tape")
    | .threeTape => Requires m "type" (Value.HasText · "3tape")
  input : Permits m "input" fun v => ∃ s, v.HasText s
  table : Requires m "table" fun v => v.untagged = .mapping rows
  keys : List.Forall₂ Value.HasText (rows.map Prod.fst) states
  distinct : states.Nodup
  start : Requires m "start state" fun v => ∃ q ∈ states, q ≠ "" ∧ v.HasText q
  names : SynonymNames m type states synonyms
  entries : ∀ e ∈ rows, IsRow type ⟨states, synonyms, true⟩ e.2

def IsDocument (v : Value) : Prop :=
  ∃ m type rows states synonyms, v.untagged = .mapping m ∧ Describes m type rows states synonyms

end TapeMachine
