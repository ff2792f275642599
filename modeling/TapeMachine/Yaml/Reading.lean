import TapeMachine.Yaml.Token.Stream
import TapeMachine.Yaml.Node.Grammar
import TapeMachine.Yaml.Value.Plain
import TapeMachine.Yaml.Tag
import TapeMachine.Yaml.Error

/-!
# Reading a document

From the text to the value: tokens, nodes, and the interpretation of the nodes in the order in which
they stand, so that the first thing that goes wrong in the text is the one that is reported.  Collections
may be nested 128 deep, and references may be followed a hundred times for each node of the document.
-/

namespace TapeMachine.Yaml

/-! ## Scalars -/

/-- A resolved plain scalar as a value. -/
def Resolved.toValue : Resolved → Except Refusal Value
  | .value v => .ok v
  | .tooWide i => .error (.tooWide i)

/-- A scalar under a tag of the language, which says what its text must be. -/
def readTagged (s : String) : Tag → Except Refusal Value
  | .bool =>
    match boolOfText? s with
    | some b => .ok (.bool b)
    | none => .error (.notOfTag s "a boolean")
  | .integer =>
    match resolveInteger? s with
    | some r => r.toValue
    | none => .error (.notOfTag s "an integer")
  | .float =>
    match floatOfText? s.toList with
    | some x => .ok (.number (.float x))
    | none => .error (.notOfTag s "a float")
  | .null => if isNullText s then .ok .null else .error (.notOfTag s "null")
  | _ => .ok (.string s)

/-- A scalar without a tag of the language. -/
def readUntagged (style : Style) (s : String) : Except Refusal Value :=
  match style with
  | .plain => (resolvePlain s).toValue
  | .quoted => .ok (.string s)

/-- A scalar; a tag of the document becomes part of the value. -/
def readScalar (tag : Option Tag) (style : Style) (s : String) : Except Refusal Value :=
  match tag with
  | some .unreadable => readUntagged style s
  | some (.ofDocument name) => (readUntagged style s).map (.tagged name)
  | some tag => readTagged s tag
  | none => readUntagged style s

/-! ## Nodes -/

/-- What the interpretation of a node needs to know of the document. -/
structure References where
  targets : List (Nat × Node)
  limit : Nat

/-- The state counts the references that have been followed. -/
abbrev Interpreter := StateT Nat (Except ReadError)

namespace Interpreter

/-- A reference stands for its target; the path to a node tells where it was followed. -/
def follow (refs : References) (path : Path) (node : Node) : Interpreter (Path × Node) := do
  match node with
  | .reference mark number =>
    let count := (← get) + 1
    if count > refs.limit then throw .tooManyReferences
    set count
    match refs.targets.lookup number with
    | some target => return (.target :: path, target)
    | none => throw (.form (.bare .anchorUnknown mark))
  | node => return (path, node)

/-- The step from a mapping to the value of a key. -/
def stepOf : Node → Step
  | .scalar _ _ _ text => .key text
  | _ => .unnamed

/-- The items of a sequence from the `i`th on. -/
def items (read : Path → Node → Interpreter Value) (path : Path) :
    Nat → List Node → Interpreter (List Value)
  | _, [] => return []
  | i, node :: nodes => do
    let v ← read (.index i :: path) node
    return v :: (← items read path (i + 1) nodes)

/-- The entries of a mapping, of which `before` are known (the newest first). -/
def entries (read : Path → Node → Interpreter Value) (mark : Mark) (path : Path)
    (before : List (Value × Value)) : List Node → Interpreter (List (Value × Value))
  | [] => return before.reverse
  | [node] => do
    discard (read path node)
    return before.reverse
  | node :: next :: nodes => do
    let key ← read path node
    match before.find? (·.1.same key) with
    | some (known, _) => throw (.content (.repeatedKey known) mark path)
    | none =>
      let v ← read (stepOf node :: path) next
      entries read mark path ((key, v) :: before) nodes

/-- The value of a node, at a depth of at most `depth` collections. -/
def interpret (refs : References) : (depth : Nat) → Path → Node → Interpreter Value :=
    fun depth path node => do
  let (path, node) ← follow refs path node
  match node with
  | .scalar mark properties style text =>
    match readScalar (properties.tag.map Tag.ofOctets) style text with
    | .ok v => return v
    | .error refusal => throw (.content refusal mark path)
  | .collection mark properties kind nodes =>
    match depth with
    | 0 => throw (.form (.bare .nestingTooDeep mark))
    | depth + 1 =>
      let read := interpret refs depth
      let v ← match kind with
        | .sequence => Value.sequence <$> items read path 0 nodes
        | .mapping => Value.mapping <$> entries read mark path [] nodes
      return match properties.tag.map Tag.ofOctets with
        | some (.ofDocument name) => .tagged name v
        | _ => v
  | .reference mark _ => throw (.form (.bare .anchorUnknown mark))
  | .broken fault => throw (.form fault)

end Interpreter

/-- How deeply collections may be nested. -/
def maxDepth : Nat := 128

/-- How often references may be followed, for each node. -/
def referencesPerNode : Nat := 100

/-- The value of a document. -/
def Document.value (d : Document) : Except ReadError Value := do
  let refs : References := ⟨d.targets, referencesPerNode * d.size⟩
  let v ← match d.root with
    | none => pure .null
    | some root => ((Interpreter.interpret refs maxDepth [] root).run 0).map Prod.fst
  match d.fault with
  | some fault => throw (.form fault)
  | none => if d.continued then throw .severalDocuments else return v

/-- Reads the one document of a text. -/
def read (text : List Char) : Except ReadError Value :=
  (Document.ofTokens (tokenize text)).value

end TapeMachine.Yaml
