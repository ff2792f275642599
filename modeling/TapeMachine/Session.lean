import TapeMachine.Machine

/-!
# Sessions

A caller may step a machine, let it run, and edit its tapes, in any order and as often as wanted.  A
session is a list of such operations with their answers; it ends early only where an instruction does not
fit the machine.
-/

namespace TapeMachine

/-- What a caller can do to a tape. -/
inductive TapeEdit where
  | write (c : Symbol)
  | left
  | right
  | stay
  | move (d : Direction)
deriving DecidableEq

def TapeEdit.apply : TapeEdit → Tape → Tape
  | .write c, t => t.write c
  | .left, t => t.left
  | .right, t => t.right
  | .stay, t => t
  | .move d, t => t.move d

inductive Operation where
  | step
  | run (n : Nat)
  | edit (tape : Nat) (e : TapeEdit)
deriving DecidableEq

inductive Answer where
  /-- Whether an instruction was executed. -/
  | stepped (executed : Bool)
  /-- A run has ended without an instruction for the next step. -/
  | halted (steps : Nat)
  | stepLimit (steps : Nat)
  | edited
  | refused (e : MachineError)
  | misfit
deriving DecidableEq

namespace Control

variable {σ : Type}

/-- The answer to an operation, and the configuration after it. -/
def perform (r : Control) (c : Config) : Operation → Answer × Config
  | .step =>
    match r.step c with
    | .halted => (.stepped false, c)
    | .misfit _ => (.misfit, c)
    | .done _ next => (.stepped true, next)
  | .run n =>
    match r.run n c with
    | (.halted, last) => (.halted last.steps, last)
    | (.stepLimit, last) => (.stepLimit last.steps, last)
    | (.misfit, last) => (.misfit, last)
  | .edit tape e =>
    match c.modifyTape tape e.apply with
    | .ok next => (.edited, next)
    | .error e => (.refused e, c)

/-- The answers to a list of operations, and the configuration after the last of them. -/
def session (r : Control) : List Operation → Config → List Answer × Config
  | [], c => ([], c)
  | o :: os, c =>
    if (r.perform c o).1 = .misfit then ([.misfit], (r.perform c o).2)
    else ((r.perform c o).1 :: (session r os (r.perform c o).2).1, (session r os (r.perform c o).2).2)

/-- The number of steps that an operation executes. -/
def executed (r : Control) (c : Config) : Operation → Nat
  | .step => (r.trace 1 c).length
  | .run n => (r.trace n c).length
  | .edit _ _ => 0

/-- The number of steps that a list of operations executes. -/
def executedAll (r : Control) : List Operation → Config → Nat
  | [], _ => 0
  | o :: os, c =>
    if (r.perform c o).1 = .misfit then r.executed c o
    else r.executed c o + executedAll r os (r.perform c o).2

/-- The answer to an operation with an observer; edits are not observed. -/
def performWith (r : Control) (o : Observer σ) (c : Config) (s : σ) : Operation → (Answer × Config) × σ
  | .step =>
    match r.stepWith o c s with
    | (.halted, s) => ((.stepped false, c), s)
    | (.misfit _, s) => ((.misfit, c), s)
    | (.done _ next, s) => ((.stepped true, next), s)
  | .run n =>
    match r.runWith o n c s with
    | ((.halted, last), s) => ((.halted last.steps, last), s)
    | ((.stepLimit, last), s) => ((.stepLimit last.steps, last), s)
    | ((.misfit, last), s) => ((.misfit, last), s)
  | .edit tape e => (r.perform c (.edit tape e), s)

/-- The answers to a list of operations with an observer. -/
def sessionWith (r : Control) (o : Observer σ) :
    List Operation → Config → σ → (List Answer × Config) × σ
  | [], c, s => (([], c), s)
  | op :: ops, c, s =>
    let ((answer, next), s) := r.performWith o c s op
    if answer = .misfit then (([.misfit], next), s)
    else
      let ((answers, last), s) := sessionWith r o ops next s
      ((answer :: answers, last), s)

/-- What is observed of a list of operations. -/
def observedAll (r : Control) (ops : List Operation) (c : Config) : List Event :=
  (r.sessionWith recorder ops c #[]).2.toList

theorem session_cons_of_misfit {r : Control} {c : Config} {o : Operation} (os : List Operation)
    (h : (r.perform c o).1 = .misfit) :
    r.session (o :: os) c = ([.misfit], (r.perform c o).2) := if_pos h

theorem session_cons_of_ne_misfit {r : Control} {c : Config} {o : Operation} (os : List Operation)
    (h : (r.perform c o).1 ≠ .misfit) :
    r.session (o :: os) c = ((r.perform c o).1 :: (r.session os (r.perform c o).2).1,
      (r.session os (r.perform c o).2).2) := if_neg h

theorem executedAll_cons_of_ne_misfit {r : Control} {c : Config} {o : Operation} (os : List Operation)
    (h : (r.perform c o).1 ≠ .misfit) :
    r.executedAll (o :: os) c = r.executed c o + r.executedAll os (r.perform c o).2 := if_neg h

end Control

end TapeMachine
