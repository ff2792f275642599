import TapeMachine.Yaml.Reading
import TapeMachine.Text.Space
import TapeMachine.Dict
import TapeMachine.Main
import TapeMachine.Analysis
import TapeMachine.Graph.Elements
import TapeMachine.Tape.Address
import TapeMachine.Json.Machine
import TapeMachine.Proofs.Machine.Textbook
import TapeMachine.Proofs.Success
import TapeMachine.Proofs.Document.Instruction
import TapeMachine.Proofs.Document.Rows
import TapeMachine.Proofs.Document.Fields
import TapeMachine.Proofs.Document.Validity
import TapeMachine.Proofs.Machine.Session
import TapeMachine.Proofs.Document.Grammar
import TapeMachine.Proofs.Document.Names
import TapeMachine.Proofs.Document.Forms
import TapeMachine.Proofs.Document.Acceptance
import TapeMachine.Proofs.Graph.Merging
import TapeMachine.Proofs.Graph.Names
import TapeMachine.Proofs.Graph.Control
import TapeMachine.Proofs.Document.Meaning
import TapeMachine.Proofs.Document.Lookup
import TapeMachine.Proofs.Yaml.Place
import TapeMachine.Proofs.Document.Place
import TapeMachine.Proofs.Yaml.Plain
import TapeMachine.Proofs.Number.Binary64
import TapeMachine.Proofs.Yaml.Cause
import TapeMachine.Proofs.Yaml.Messages
import TapeMachine.Proofs.Document.Classification
import TapeMachine.Proofs.Document.LongInteger
import TapeMachine.Proofs.Graph.Reachability
import TapeMachine.Proofs.Machine.Observation
import TapeMachine.Proofs.Machine.Widening
import TapeMachine.Proofs.Document.Inlining
import TapeMachine.Proofs.Document.Shorthand
import TapeMachine.Proofs.Yaml.Stream
import TapeMachine.Proofs.Yaml.Void
import TapeMachine.Proofs.Document.Emptiness
import TapeMachine.Proofs.CommandLine.Debugging
import TapeMachine.Proofs.Machine.Alphabet
import TapeMachine.Proofs.Machine.Misfit
import TapeMachine.Proofs.Machine.Precedence
import TapeMachine.Proofs.Machine.Extent
import TapeMachine.Proofs.Machine.Readable
import TapeMachine.Proofs.Document.Declarations
import TapeMachine.Proofs.Document.Tags
import TapeMachine.Proofs.Document.Presentation
import TapeMachine.Proofs.Document.Defects
import TapeMachine.Proofs.Document.Chaining
import TapeMachine.Proofs.Graph.Labels
import TapeMachine.Proofs.Graph.Recovery
import TapeMachine.Proofs.Machine.Address
import TapeMachine.Proofs.Machine.Execution
import TapeMachine.Proofs.Program.Binary
import TapeMachine.Proofs.Program.Bundled
import TapeMachine.Proofs.Program.Increment
import TapeMachine.Proofs.Program.Copying
import TapeMachine.Proofs.Program.Divisibility
import TapeMachine.Proofs.Program.Repetition
