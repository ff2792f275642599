import TapeMachine.Analysis
import TapeMachine.CommandLine.Options
import TapeMachine.Graph.Elements
import TapeMachine.Program

/-!
# Running the command line

The command line runs a machine, from a file, from the standard input or from the bundled programs, and
writes how the run ended and what the tapes hold; on request it writes every configuration of the run,
the graph of the machine instead of a run, or the list of the bundled programs.
-/

namespace TapeMachine.CommandLine

/-- Why a file cannot be read. -/
inductive FileError where
  | notFound
  | isDirectory
  | notDirectory
deriving DecidableEq

def FileError.message : FileError → String
  | .notFound => "No such file or directory (os error 2)"
  | .isDirectory => "Is a directory (os error 21)"
  | .notDirectory => "Not a directory (os error 20)"

/-- What a program is given. -/
structure World where
  arguments : List String
  standardInput : ByteArray
  file : String → Except FileError ByteArray

structure Failure where
  message : String
  cause : Option String := none
deriving DecidableEq

/-- How a program ends; for arguments it does not understand it only shows how it is used. -/
inductive Outcome where
  | misused
  | failed (failure : Failure)
  | done (output warnings : List String)
deriving DecidableEq

/-! ## The machine to run -/

def decode (bytes : ByteArray) : Except String String :=
  match String.fromUTF8? bytes with
  | some text => .ok text
  | none => .error "stream did not contain valid UTF-8"

/-- The machine that a text describes; `source` says where the text is from. -/
def parseFrom (source text : String) : Except Failure Spec :=
  (Spec.parse text).mapError fun e => ⟨"Invalid machine document" ++ source, some e.display⟩

def loadFile (w : World) (path : String) : Except Failure Spec := do
  let unread := fun cause => Failure.mk s!"Failed to read file {path}" (some cause)
  let bytes ← (w.file path).mapError fun e => unread e.message
  let text ← (decode bytes).mapError unread
  parseFrom s!" {path}" text

def loadStandardInput (w : World) : Except Failure Spec := do
  let text ← (decode w.standardInput).mapError fun cause =>
    ⟨"Failed to read machine document", some cause⟩
  parseFrom "" text

def loadBundled (id : String) : Except Failure Spec :=
  match Program.byId? id with
  | some p => .ok p.spec
  | none => .error ⟨s!"Unknown example \u0060{id}\u0060, see --list", none⟩

def load (w : World) (o : Options) : Except Failure Spec :=
  match o.bundled, o.program with
  | some id, _ => loadBundled id
  | none, some path => loadFile w path
  | none, none => loadStandardInput w

/-! ## Running it -/

/-- How a run ended, and the tapes after it. -/
def summary (halted : Bool) (c : Config) : List String :=
  (if halted then s!"Halted in state \u0060{c.state}\u0060 after {c.steps} steps."
    else s!"Stopped after {c.steps} steps in state \u0060{c.state}\u0060 (step limit).") ::
    c.tapes.map Tape.display

/-- A run, of which only the end is shown. -/
def plainRun (r : Control) (n : Nat) (c : Config) : List String :=
  let (ending, last) := r.run n c
  summary (ending == .halted) last

/-- A run, all of whose configurations are shown. -/
def shownRun (r : Control) (n : Nat) (c : Config) : List String :=
  let configs := c :: r.trace n c
  let last := configs.getLast?.getD c
  configs.map Config.display ++ summary (r.isHalted last) last

def output (o : Options) (s : Spec) : List String :=
  if o.graph then [s.table.graph.elementsJson]
  else if o.debug then shownRun s.table.control o.maxSteps s.initial
  else plainRun s.table.control o.maxSteps s.initial

/-- The kinds of messages, each with the names by which it can be asked for, from the gravest on. -/
def logLevels : List (List String) :=
  [["off", "0"], ["error", "1"], ["warn", "2"], ["info", "3"], ["debug", "4"], ["trace", "5"]]

def level? (name : String) : Option Nat := logLevels.findIdx? (·.contains name.toLower)

/-- Whether warnings are shown under a filter, a list of directives between commas: the last one that is
a level counts, and without one they are not. -/
def showsWarnings (filter : String) : Bool :=
  ((filter.splitOn ",").filterMap level?).getLast?.any (2 ≤ ·)

/-- A character of a log line: controls that a terminal would obey are written by their codes. -/
def loggedChar (c : Char) : List Char :=
  if c == '\x07' || c == '\x08' || c == '\x0c' || c == '\x1b' || c == '\x7f' then
    "\\x".toList ++ (if c.toNat < 0x10 then ['0'] else []) ++ Nat.toDigits 16 c.toNat
  else if 0x80 ≤ c.toNat && c.toNat ≤ 0x9f then Text.codePointEscape c
  else [c]

def logged (message : String) : String := String.ofList (message.toList.flatMap loggedChar)

def warningLines (o : Options) (s : Spec) : List String :=
  if showsWarnings o.logLevel then s.warnings.map fun w => "WARN " ++ logged w.message else []

/-- The machine with the input that is asked for. -/
def prepared (o : Options) (s : Spec) : Spec := (o.input.map s.withInput).getD s

def execute (w : World) (o : Options) : Outcome :=
  if o.list then .done (Program.all.map Program.summary) []
  else
    match load w o with
    | .error failure => .failed failure
    | .ok s => .done (output o (prepared o s)) (warningLines o (prepared o s))

def run (w : World) : Outcome :=
  match Options.ofArguments? Control.defaultSteps w.arguments with
  | none => .misused
  | some o => execute w o

/-! ## What is written -/

namespace Outcome

def code : Outcome → Nat
  | .misused => 2
  | .failed _ => 1
  | .done _ _ => 0

def standardOutput : Outcome → String
  | .done output _ => String.join (output.map (· ++ "\n"))
  | _ => ""

def usage : String :=
  "Usage: tape-machine [PROGRAM] [-e NAME] [-i INPUT] [-d] [--max-steps N] [--graph] [--list] [--log-level LEVEL]"

/-- The lines for the standard error; every line of a cause is indented. -/
def errorLines : Outcome → List String
  | .misused => [usage]
  | .failed ⟨message, none⟩ => lines ("Error: " ++ message)
  | .failed ⟨message, some cause⟩ =>
    lines ("Error: " ++ message) ++ ["", "Caused by:"] ++ (lines cause).map ("    " ++ ·)
  | .done _ warnings => warnings.flatMap lines
where
  lines (text : String) : List String := text.splitOn "\n"

end Outcome

end TapeMachine.CommandLine
