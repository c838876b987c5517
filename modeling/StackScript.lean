import StackScript.Text.Alphanumeric
import StackScript.Text.Blank
import StackScript.Text.Style
import StackScript.Token.Scan
import StackScript.Tree.Parse
import StackScript.Binding.Bind
import StackScript.Value.Object
import StackScript.Value.Coercion
import StackScript.Code.Jumps
import StackScript.Code.Listing
import StackScript.Code.Generate
import StackScript.Machine.Step
import StackScript.Session
import StackScript.Console.Completion
import StackScript.Console.Folder
import StackScript.Console.Run
import StackScript.Main
import StackScript.Proofs.Code.Placed
import StackScript.Proofs.Machine.Reach
import StackScript.Proofs.Evaluator.Basic
import StackScript.Proofs.Evaluator.Image
import StackScript.Proofs.Evaluator.Widths
import StackScript.Proofs.Machine.Growth
import StackScript.Proofs.Evaluator.Simulation
import StackScript.Proofs.Evaluator.Programs
import StackScript.Proofs.Evaluator.Termination
import StackScript.Proofs.Tree.Names
import StackScript.Proofs.Value.Functions
import StackScript.Proofs.Code.Sound
import StackScript.Proofs.Code.Generation
import StackScript.Proofs.Machine.Safe
import StackScript.Proofs.Machine.Frames
import StackScript.Proofs.Machine.Preservation
import StackScript.Proofs.Tree.Holes
import StackScript.Proofs.Binding.Recorded
import StackScript.Proofs.Machine.Writes
import StackScript.Proofs.Machine.Calls
import StackScript.Proofs.Machine.Naming
import StackScript.Proofs.Machine.Conclusion
import StackScript.Proofs.Machine.StackEffect
import StackScript.Proofs.Machine.Structure
import StackScript.Proofs.Session.StackDiscipline
import StackScript.Proofs.Machine.Housed
import StackScript.Proofs.Session.Declarations
import StackScript.Proofs.Token.Lexing
import StackScript.Proofs.Tree.Bare
import StackScript.Proofs.Tree.Numbering
import StackScript.Proofs.Tree.Lockstep
import StackScript.Proofs.Tree.LockstepStatements
import StackScript.Proofs.Tree.Joining
import StackScript.Proofs.Tree.Likeness
import StackScript.Proofs.Machine.ClosedScopes
import StackScript.Proofs.Machine.StepLimit
import StackScript.Proofs.Machine.Transparency
import StackScript.Proofs.Tree.Grammar
import StackScript.Proofs.Tree.ReadBack
import StackScript.Proofs.Tree.Inversion
import StackScript.Proofs.Binding.Parallel
import StackScript.Proofs.Code.Bare
import StackScript.Proofs.Evaluator.Alike
import StackScript.Proofs.Evaluator.Returns
import StackScript.Proofs.Session.Batch
import StackScript.Proofs.Machine.Provenance
import StackScript.Proofs.Machine.CallDepth
import StackScript.Proofs.Code.Parts
import StackScript.Proofs.Machine.Regime
import StackScript.Proofs.Machine.JumpTargets
import StackScript.Proofs.Source.Places
import StackScript.Proofs.Source.Locations
import StackScript.Proofs.Token.Spans
import StackScript.Proofs.Tree.Spans
import StackScript.Proofs.Tree.Depth
import StackScript.Proofs.Binding.Gaps
import StackScript.Proofs.Code.Emitted
import StackScript.Proofs.Session.Compilation
import StackScript.Proofs.Session.Reports
import StackScript.Proofs.Token.Tiling
import StackScript.Proofs.Token.Brackets
import StackScript.Proofs.Token.Front
import StackScript.Proofs.Token.Respacing
import StackScript.Proofs.Token.Quotation
import StackScript.Proofs.Token.Numerals
import StackScript.Proofs.Tree.Nesting
import StackScript.Proofs.Tree.Postorder
import StackScript.Proofs.Console.Balance
import StackScript.Proofs.Code.Segments
import StackScript.Proofs.Code.WellFormed
import StackScript.Proofs.Binding.Verdicts
import StackScript.Proofs.Heap.Assignment
import StackScript.Proofs.Binding.Globals
import StackScript.Proofs.Tree.Equations
import StackScript.Proofs.Tree.Settling
import StackScript.Proofs.Tree.Tally
import StackScript.Proofs.Tree.Progress
import StackScript.Proofs.Tree.Pieces
import StackScript.Proofs.Tree.Building
import StackScript.Proofs.Tree.Layout
import StackScript.Proofs.Tree.LayoutStatements
import StackScript.Proofs.Value.Equality
import StackScript.Proofs.Value.Objects
import StackScript.Proofs.Tree.Annotations
import StackScript.Proofs.Binding.Assignability
import StackScript.Proofs.Console.Completion
import StackScript.Proofs.Console.Highlight
