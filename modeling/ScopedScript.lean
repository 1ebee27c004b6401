import ScopedScript.Syntax.Basic
import ScopedScript.Text.Blank
import ScopedScript.Decimal.Layout
import ScopedScript.Decimal.Reading
import ScopedScript.Json.Parser
import ScopedScript.Tree.Reader
import ScopedScript.Tree.Printer
import ScopedScript.Ty
import ScopedScript.Typing.Program
import ScopedScript.Compile.Program
import ScopedScript.Machine.Run
import ScopedScript.Machine.Minimal
import ScopedScript.Json.Printer
import ScopedScript.Syntax.Location
import ScopedScript.Diagnostic.Causes
import ScopedScript.Code.Writer
import ScopedScript.Code.Reader
import ScopedScript.Ron.Parser
import ScopedScript.Ron.Shape
import ScopedScript.Code.Listing
import ScopedScript.Ron.Printer
import ScopedScript.Config
import ScopedScript.FileTree
import ScopedScript.Toolchain
import ScopedScript.Main
import ScopedScript.Proofs.Machine.Triple
import ScopedScript.Proofs.Machine.Handles
import ScopedScript.Proofs.Machine.Slots
import ScopedScript.Proofs.Machine.HandleFlow
import ScopedScript.Proofs.Machine.TaskTable
import ScopedScript.Proofs.Machine.Deadlock
import ScopedScript.Proofs.Machine.Runs
import ScopedScript.Proofs.Machine.Frames
import ScopedScript.Proofs.Machine.FrameSteps
import ScopedScript.Proofs.Machine.StandardAnswers
import ScopedScript.Proofs.Machine.ReleaseLog
import ScopedScript.Proofs.Machine.Liveness
import ScopedScript.Proofs.Compile.Points
import ScopedScript.Proofs.Compile.Layout
import ScopedScript.Proofs.Compile.Emission
import ScopedScript.Proofs.Compile.Compiled
import ScopedScript.Proofs.Compile.Modules
import ScopedScript.Proofs.Typing.Reporting
import ScopedScript.Proofs.Typing.Restoring
import ScopedScript.Proofs.Typing.Loops
import ScopedScript.Proofs.Compile.SlotSafety
import ScopedScript.Proofs.Compile.SafePaths
import ScopedScript.Proofs.Typing.Looped
import ScopedScript.Proofs.Compile.UseAfterFree
import ScopedScript.Proofs.Machine.Reactions
import ScopedScript.Proofs.Machine.Rebinding
import ScopedScript.Proofs.Typing.Receivers
import ScopedScript.Proofs.Compile.Levels
import ScopedScript.Proofs.Compile.Heights
import ScopedScript.Proofs.Compile.Awaiting
import ScopedScript.Proofs.Typing.Checked
import ScopedScript.Proofs.Compile.Resolution
import ScopedScript.Proofs.Machine.Executions
import ScopedScript.Proofs.Typing.Flow
import ScopedScript.Proofs.Machine.Contents
import ScopedScript.Proofs.Machine.References
import ScopedScript.Proofs.Typing.Waits
import ScopedScript.Proofs.Typing.Waiting
import ScopedScript.Proofs.Compile.Modes
import ScopedScript.Proofs.Compile.Suspension
import ScopedScript.Proofs.Compile.Initialized
import ScopedScript.Proofs.Compile.Assignments
import ScopedScript.Proofs.Typing.Bare
import ScopedScript.Proofs.Typing.BareChecked
import ScopedScript.Proofs.Compile.BareCode
import ScopedScript.Proofs.Compile.BareEmission
import ScopedScript.Proofs.Compile.BareCompiled
import ScopedScript.Proofs.Compile.BareMachine
import ScopedScript.Proofs.Compile.BareInstructions
import ScopedScript.Proofs.Compile.BareSteps
import ScopedScript.Proofs.Compile.Unobserved
import ScopedScript.Proofs.Tree.RoundTrip
import ScopedScript.Proofs.Machine.Independence
import ScopedScript.Proofs.Typing.Identities
import ScopedScript.Proofs.Typing.ItemOrder
import ScopedScript.Proofs.Typing.Captures
import ScopedScript.Proofs.Compile.Collected
import ScopedScript.Proofs.Evaluation.Outline
import ScopedScript.Proofs.Evaluation.Numbering
import ScopedScript.Proofs.Evaluation.Procedures
import ScopedScript.Proofs.Evaluation.Evaluator
import ScopedScript.Proofs.Evaluation.Floats
import ScopedScript.Proofs.Evaluation.Segments
import ScopedScript.Proofs.Evaluation.Correspondence
import ScopedScript.Proofs.Evaluation.Realization
import ScopedScript.Proofs.Evaluation.Answers
import ScopedScript.Proofs.Evaluation.Expressions
import ScopedScript.Proofs.Evaluation.Scopes
import ScopedScript.Proofs.Evaluation.Statements
import ScopedScript.Proofs.Evaluation.Calls
import ScopedScript.Proofs.Evaluation.Preservation
import ScopedScript.Proofs.Machine.BindingHistory
import ScopedScript.Proofs.Machine.Allocator
import ScopedScript.Proofs.Machine.FieldPaths
import ScopedScript.Proofs.Typing.Endings
import ScopedScript.Proofs.Compile.Endings
import ScopedScript.Proofs.Compile.Literals
import ScopedScript.Proofs.Machine.BoxedResults
import ScopedScript.Proofs.Machine.BoxedRuns
import ScopedScript.Proofs.Machine.DynamicCalls
import ScopedScript.Proofs.Values.Boxes
import ScopedScript.Proofs.Values.Equality
import ScopedScript.Proofs.Values.IntegerText
import ScopedScript.Proofs.Values.Integers
import ScopedScript.Proofs.Compile.StructLayouts
import ScopedScript.Proofs.Compile.Placement
import ScopedScript.Proofs.Compile.DynamicAccess
import ScopedScript.Proofs.Text.Lines
import ScopedScript.Proofs.Text.Positions
import ScopedScript.Proofs.Diagnostic.Rendering
import ScopedScript.Proofs.Typing.Assignability
import ScopedScript.Proofs.Machine.Raising
import ScopedScript.Proofs.Machine.Totality
import ScopedScript.Proofs.Typing.Rules
import ScopedScript.Proofs.Typing.Contexts
import ScopedScript.Proofs.Typing.RuleSteps
import ScopedScript.Proofs.Typing.Passing
import ScopedScript.Proofs.Typing.Shifting
import ScopedScript.Proofs.Typing.Branching
import ScopedScript.Proofs.Typing.WellTyped
import ScopedScript.Proofs.Typing.Signatures
import ScopedScript.Proofs.Typing.TypedPrograms
