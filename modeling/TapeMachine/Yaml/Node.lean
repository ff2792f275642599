import TapeMachine.Yaml.Token

/-!
# Nodes

The tree that a document writes down, before its scalars are interpreted.  A node can be given a
number, by which references name it.  Where the document goes wrong the tree ends in a `broken` node:
what stands before it is known, and nothing that follows it counts.
-/

namespace TapeMachine.Yaml

inductive CollectionKind where
  | sequence
  | mapping
deriving DecidableEq

/-- What stands in front of a node. -/
structure Properties where
  /-- The octets of the tag, its handle replaced by the prefix. -/
  tag : Option (List Nat)
  number : Option Nat
deriving DecidableEq

def Properties.empty : Properties := ⟨none, none⟩

inductive Node where
  | scalar (mark : Mark) (properties : Properties) (style : Style) (text : String)
  /-- The items of a mapping are its keys and values in turn. -/
  | collection (mark : Mark) (properties : Properties) (kind : CollectionKind) (items : List Node)
  | reference (mark : Mark) (number : Nat)
  | broken (fault : Fault)

/-- The first document of a text. -/
structure Document where
  /-- Nothing, where the text holds no document. -/
  root : Option Node
  /-- One for each scalar, each reference and each start and end of a collection. -/
  size : Nat
  /-- What goes wrong after the root and before the document has ended. -/
  fault : Option Fault
  /-- Whether something other than the end of the text follows. -/
  continued : Bool

/-! ## References -/

mutual

/-- The nodes that have numbers, in the order in which they start. -/
def Node.numbered : Node → List (Nat × Node)
  | .collection mark properties kind items =>
    let inner := Node.numberedAll items
    match properties.number with
    | some n => (n, .collection mark properties kind items) :: inner
    | none => inner
  | .scalar mark properties style text =>
    match properties.number with
    | some n => [(n, .scalar mark properties style text)]
    | none => []
  | .reference _ _ | .broken _ => []

def Node.numberedAll : List Node → List (Nat × Node)
  | [] => []
  | node :: nodes => node.numbered ++ Node.numberedAll nodes

end

/-- The nodes that references name, the last one first: of two nodes with one number the later counts. -/
def Document.targets (d : Document) : List (Nat × Node) :=
  ((d.root.map Node.numbered).getD []).reverse

end TapeMachine.Yaml
