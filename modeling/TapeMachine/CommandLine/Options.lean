/-!
# Options of the command line

Every option and every flag may be given once.  An option takes its value from the same argument, after
an equals sign or directly after the letter, or else from the next argument, which then must not look
like an option itself.  After `--` nothing is an option any more.
-/

namespace TapeMachine.CommandLine

inductive Name where
  | bundled
  | input
  | maxSteps
  | logLevel
deriving DecidableEq

inductive Flag where
  | debug
  | graph
  | list
deriving DecidableEq

/-- What an argument says, with its value. -/
inductive Setting where
  | program (path : String)
  | option (name : Name) (value : String)
  | flag (f : Flag)
deriving DecidableEq

inductive Switch where
  | option (name : Name)
  | flag (f : Flag)

def long? : String → Option Switch
  | "example" => some (.option .bundled)
  | "input" => some (.option .input)
  | "max-steps" => some (.option .maxSteps)
  | "log-level" => some (.option .logLevel)
  | "debug" => some (.flag .debug)
  | "graph" => some (.flag .graph)
  | "list" => some (.flag .list)
  | _ => none

def short? : Char → Option Switch
  | 'e' => some (.option .bundled)
  | 'i' => some (.option .input)
  | 'd' => some (.flag .debug)
  | _ => none

/-! ## Arguments -/

/-- Whether an argument is an option, a group of them, or the end of the options. -/
def looksLikeOption (argument : String) : Bool :=
  match argument.toList with
  | '-' :: _ :: _ => true
  | _ => false

/-- The settings of a group of short options, and the option that still waits for a value. -/
def readShort : List Char → Option (List Setting × Option Name)
  | [] => some ([], none)
  | c :: cs =>
    match short? c with
    | none => none
    | some (.flag f) => (readShort cs).map fun (settings, waiting) => (.flag f :: settings, waiting)
    | some (.option name) =>
      match cs with
      | [] => some ([], some name)
      | '=' :: value => some ([.option name (String.ofList value)], none)
      | value => some ([.option name (String.ofList value)], none)

/-- The name of a long option, and its value if that is in the same argument. -/
def splitLong (cs : List Char) : String × Option String :=
  let name := String.ofList (cs.takeWhile (· != '='))
  match cs.dropWhile (· != '=') with
  | [] => (name, none)
  | _ :: value => (name, some (String.ofList value))

/-- The setting of a long option, or the option that still waits for a value. -/
def readLong (cs : List Char) : Option (List Setting × Option Name) :=
  match splitLong cs with
  | (name, value?) =>
    match long? name, value? with
    | some (.flag f), none => some ([.flag f], none)
    | some (.option name), some value => some ([.option name value], none)
    | some (.option name), none => some ([], some name)
    | _, _ => none

/-- The settings of the arguments, in order. -/
def readArguments : List String → Option (List Setting)
  | [] => some []
  | argument :: arguments =>
    match argument.toList with
    | ['-', '-'] => some (arguments.map .program)
    | '-' :: '-' :: cs => withNext (readLong cs) arguments
    | '-' :: c :: cs => withNext (readShort (c :: cs)) arguments
    | _ => (readArguments arguments).map (.program argument :: ·)
where
  /-- The settings read so far, the value that is still to come, and the rest. -/
  withNext : Option (List Setting × Option Name) → List String → Option (List Setting)
    | none, _ => none
    | some (settings, none), arguments => (readArguments arguments).map (settings ++ ·)
    | some (_, some _), [] => none
    | some (settings, some name), value :: arguments =>
      if looksLikeOption value then none
      else (readArguments arguments).map (settings ++ .option name value :: ·)

/-! ## Options -/

structure Options where
  program : Option String
  /-- The name of a bundled program. -/
  bundled : Option String
  input : Option String
  debug : Bool
  maxSteps : Nat
  graph : Bool
  list : Bool
  logLevel : String
deriving DecidableEq

/-- The only one of some values, if there is one. -/
def atMostOne? {α : Type} : List α → Option (Option α)
  | [] => some none
  | [a] => some (some a)
  | _ => none

/-- A number of 64 bits in decimal digits, perhaps after a plus sign. -/
def readCount? (s : String) : Option Nat :=
  let digits := match s.toList with
    | '+' :: cs => cs
    | cs => cs
  if digits ≠ [] ∧ digits.all Char.isDigit then
    let n := digits.foldl (fun n c => 10 * n + (c.toNat - '0'.toNat)) 0
    if n < UInt64.size then some n else none
  else none

def valuesOf (name : Name) (settings : List Setting) : List String :=
  settings.filterMap fun
    | .option n value => if n = name then some value else none
    | _ => none

def programsOf (settings : List Setting) : List String :=
  settings.filterMap fun
    | .program path => some path
    | _ => none

/-- Whether a flag is given, if it is not given twice. -/
def flag? (f : Flag) (settings : List Setting) : Option Bool :=
  match (settings.filter (· = .flag f)).length with
  | 0 => some false
  | 1 => some true
  | _ => none

/-- The options, unless the arguments are not what they should be. -/
def Options.ofArguments? (defaultSteps : Nat) (arguments : List String) : Option Options := do
  let settings ← readArguments arguments
  let program ← atMostOne? (programsOf settings)
  guard (program ≠ some "")
  let bundled ← atMostOne? (valuesOf .bundled settings)
  guard (program.isNone || bundled.isNone)
  let input ← atMostOne? (valuesOf .input settings)
  let steps ← atMostOne? (valuesOf .maxSteps settings)
  let maxSteps ← match steps with
    | none => some defaultSteps
    | some s => readCount? s
  let logLevel ← atMostOne? (valuesOf .logLevel settings)
  return {
    program := program
    bundled := bundled
    input := input
    debug := ← flag? .debug settings
    maxSteps := maxSteps
    graph := ← flag? .graph settings
    list := ← flag? .list settings
    logLevel := logLevel.getD "warn" }

end TapeMachine.CommandLine
