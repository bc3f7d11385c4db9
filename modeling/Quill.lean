import Quill.Code.Effect
import Quill.Code.Image
import Quill.Code.Instr
import Quill.Code.Listing
import Quill.Command.Basic
import Quill.Command.Options
import Quill.Decimal.Binary
import Quill.Decimal.Layout
import Quill.Decimal.Read
import Quill.Decimal.Shortest
import Quill.Decimal.Whole
import Quill.Files
import Quill.Files.Path
import Quill.Lowering.Draft
import Quill.Lowering.Expr
import Quill.Lowering.Fault
import Quill.Lowering.Program
import Quill.Lowering.Stmt
import Quill.Lowering.Template
import Quill.Machine.Console
import Quill.Machine.Fault
import Quill.Machine.Host
import Quill.Machine.Observer
import Quill.Machine.Run
import Quill.Machine.State
import Quill.Machine.Step
import Quill.Machine.Trace
import Quill.Machine.Value
import Quill.Main
import Quill.Operator
import Quill.Report.Basic
import Quill.Report.Code
import Quill.Report.Log
import Quill.Report.Terminal
import Quill.Scope.Assigned
import Quill.Scope.Basic
import Quill.Scope.Table
import Quill.Session
import Quill.Span
import Quill.Text.Blank
import Quill.Text.Extending
import Quill.Text.Pieces
import Quill.Text.Printable
import Quill.Text.Quoted
import Quill.Text.Utf8
import Quill.Tree.Basic
import Quill.Tree.Walk
import Quill.Ty.Basic
import Quill.Ty.Name
import Quill.Typing.Expr
import Quill.Typing.Program
import Quill.Typing.Stmt
import Quill.Wire.File
import Quill.Wire.Format
import Quill.Wire.Image
import Quill.Proofs.Typing.Flow
import Quill.Proofs.Typing.Rules
import Quill.Proofs.Scope.Chain
import Quill.Proofs.Scope.Tracks
import Quill.Proofs.Typing.Sound
import Quill.Proofs.Lowering.Growth
import Quill.Proofs.Typing.Program
import Quill.Proofs.Lowering.Image
import Quill.Proofs.Lowering.Calls
import Quill.Proofs.Code.Shape
import Quill.Proofs.Lowering.Operands
import Quill.Proofs.Lowering.Visible
import Quill.Proofs.Lowering.Verified
import Quill.Proofs.Machine.Effect
import Quill.Proofs.Machine.Advance
import Quill.Proofs.Machine.Typed
import Quill.Proofs.Machine.Soundness
import Quill.Proofs.Machine.Filled
import Quill.Proofs.Lowering.Limits
import Quill.Proofs.Lowering.Success
import Quill.Proofs.Meaning.Eval
import Quill.Proofs.Meaning.Operations
import Quill.Proofs.Meaning.Expressions
import Quill.Proofs.Meaning.Statements
import Quill.Proofs.Meaning.Correct
import Quill.Proofs.Wire.Exact
import Quill.Proofs.Wire.Image
import Quill.Proofs.Code.Flow
import Quill.Proofs.Machine.Faults
import Quill.Proofs.Machine.Regions
import Quill.Proofs.Machine.Isolation
import Quill.Proofs.Machine.Limit
import Quill.Proofs.Machine.StackEffect
import Quill.Proofs.Lowering.Tidy
import Quill.Proofs.Lowering.WellFormed
import Quill.Proofs.Code.Depth
import Quill.Proofs.Lowering.Choices
import Quill.Proofs.Lowering.Extent
import Quill.Proofs.Lowering.Depth
import Quill.Proofs.Machine.Balance
import Quill.Proofs.Lowering.Balance
import Quill.Proofs.Machine.Arrays
import Quill.Proofs.Machine.Access
import Quill.Proofs.Typing.Stages
import Quill.Proofs.Entry
import Quill.Proofs.Scope.Coherent
import Quill.Proofs.Tree.Places
import Quill.Proofs.Tree.Definite
import Quill.Proofs.Typing.Sight
import Quill.Proofs.Typing.Visits
import Quill.Proofs.Lowering.Visits
import Quill.Proofs.Names
import Quill.Proofs.Report.Log
import Quill.Proofs.Compilation
import Quill.Proofs.Typing.Erased
import Quill.Proofs.Typing.Appends
import Quill.Proofs.Tree.Frames
import Quill.Proofs.Typing.Mild
import Quill.Proofs.Typing.Local
import Quill.Proofs.Typing.Determined
import Quill.Proofs.Typing.Order
import Quill.Proofs.Machine.Mirror
import Quill.Proofs.Lowering.Mirror
import Quill.Proofs.Order
import Quill.Proofs.Typing.Definite
import Quill.Proofs.Typing.Unassigned
import Quill.Proofs.Scope.Declaring
import Quill.Proofs.Machine.RowMajor
import Quill.Proofs.Machine.Course
import Quill.Proofs.Machine.Labels
import Quill.Proofs.Machine.Passage
import Quill.Proofs.Machine.Rounds
import Quill.Proofs.Lowering.Jumps
import Quill.Proofs.Lowering.Loops
import Quill.Proofs.Scope.History
import Quill.Proofs.Text.Trim
import Quill.Proofs.Ty.Name
import Quill.Proofs.Decimal.Whole
import Quill.Proofs.Machine.Integers
import Quill.Proofs.Decimal.Phrase
import Quill.Proofs.Code.Listing
import Quill.Proofs.Lowering.Emitter
import Quill.Proofs.Files
import Quill.Proofs.Session
