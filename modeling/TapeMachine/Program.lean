import TapeMachine.Document.Parse

/-!
# Bundled programs

Machines that come with the library, as documents with a name by which they can be asked for.  They can
also be found by their place in the list, or by a part of their name or their title.
-/

namespace TapeMachine

structure Program where
  id : String
  source : String
  spec : Spec

namespace Program

/-! ## Documents -/

/-- Adds one to a binary number. -/
def binaryIncrement : String := "\n".intercalate [
  "name: binary increment",
  "# Adds 1 to a binary number.",
  "input: '1011'",
  "blank: ' '",
  "start state: right",
  "table:",
  "  # scan to the rightmost digit, then carry",
  "  right:",
  "    [1, 0]: R",
  "    ' ': \x7bL: carry\x7d",
  "  carry:",
  "    1: \x7bwrite: 0, L: carry\x7d",
  "    [0, ' ']: \x7bwrite: 1, L: done\x7d",
  "  done:",
  ""]

/-- Writes as many ones as a machine of three states and two symbols can before it halts. -/
def busyBeaver : String := "\n".intercalate [
  "name: 3-state busy beaver",
  "# Writes the most 1s of any halting 3-state, 2-symbol machine.",
  "blank: 0",
  "start state: A",
  "table:",
  "  A:",
  "    0: \x7bwrite: 1, R: B\x7d",
  "    1: \x7bR: H\x7d",
  "  B:",
  "    0: \x7bR: C\x7d",
  "    1: R",
  "  C:",
  "    0: \x7bwrite: 1, L: C\x7d",
  "    1: \x7bL: A\x7d",
  "  H:",
  ""]

/-- Copies the first tape to the second and goes back to the start. -/
def copyThreeTapes : String := "\n".intercalate [
  "name: copy (3 tapes)",
  "# Copies the input from the first tape to the second, then rewinds both heads.",
  "type: 3tape",
  "input: '111'",
  "blank: _",
  "wild: '*'",
  "start state: copy",
  "table:",
  "  copy:",
  "    '1**': \x7bwrite: '11*', move: RRS\x7d",
  "    '_**': \x7bmove: LLS, next: rewind\x7d",
  "  rewind:",
  "    '1**': LLS",
  "    '_**': \x7bmove: RRS, next: done\x7d",
  "  done: \x7b\x7d",
  ""]

/-- Accepts the binary numbers that three divides. -/
def divisibleByThree : String := "\n".intercalate [
  "name: divisible by 3",
  "# Accepts binary numbers divisible by 3. The state is the remainder so far.",
  "input: '1001'",
  "blank: ' '",
  "start state: q0",
  "synonyms:",
  "  accept: \x7bR: accept\x7d",
  "  reject: \x7bR: reject\x7d",
  "table:",
  "  q0:",
  "    0: R",
  "    1: \x7bR: q1\x7d",
  "    ' ': accept",
  "  q1:",
  "    0: \x7bR: q2\x7d",
  "    1: \x7bR: q0\x7d",
  "    ' ': reject",
  "  q2:",
  "    0: \x7bR: q1\x7d",
  "    1: R",
  "    ' ': reject",
  "  accept:",
  "  reject:",
  ""]

/-- Writes zeros and ones in turn without end. -/
def repeatZeroOne : String := "\n".intercalate [
  "name: repeat 0 1",
  "# Writes 0 _ 1 _ 0 _ 1 ... forever; it never halts.",
  "blank: ' '",
  "start state: b",
  "table:",
  "  b:",
  "    ' ': \x7bwrite: 0, R: c\x7d",
  "  c:",
  "    ' ': \x7bR: e\x7d",
  "  e:",
  "    ' ': \x7bwrite: 1, R: f\x7d",
  "  f:",
  "    ' ': \x7bR: b\x7d",
  ""]

/-- The documents with their names, in the order of the names. -/
def documents : List (String × String) := [
  ("binary-increment", binaryIncrement),
  ("busy-beaver-3", busyBeaver),
  ("copy-3tape", copyThreeTapes),
  ("divisible-by-3", divisibleByThree),
  ("repeat01", repeatZeroOne)]

/-- The program that a document is, if it is one. -/
def ofDocument? (id source : String) : Option Program :=
  match Spec.parse source with
  | .ok spec => some ⟨id, source, spec⟩
  | .error _ => none

def all : List Program := documents.filterMap fun (id, source) => ofDocument? id source

/-! ## Finding programs -/

/-- The title of the document, or else its name in the list. -/
def title (p : Program) : String := p.spec.name.getD p.id

def byId? (id : String) : Option Program := all.find? (·.id == id)

def ids : List String := all.map Program.id

/-- Whether the name or the title holds a text, in small or in capital letters.  Both are of ASCII letters
only, so no other letter has to be compared. -/
def mentions (p : Program) (text : String) : Bool :=
  let part := text.toLower.toList
  (Text.cut? part p.id.toList).isSome || (Text.cut? part p.title.toLower.toList).isSome

/-- The places in the list of the programs that mention a text. -/
def search (text : String) : List Nat :=
  (all.zipIdx.filter fun (p, _) => p.mentions text).map Prod.snd

/-- The text followed by spaces up to a width. -/
def padded (width : Nat) (s : String) : String :=
  s ++ String.ofList (List.replicate (width - s.length) ' ')

/-- A line that describes the program. -/
def summary (p : Program) : String :=
  let table := p.spec.table
  s!"{padded 18 p.id} {padded 22 p.title} {table.states.length} states, {table.transitionCount} transitions ({p.spec.machineType.name})"

end Program

end TapeMachine
