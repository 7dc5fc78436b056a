import StatScript.Comparison
import StatScript.Console.Command
import StatScript.Console.Highlight
import StatScript.Console.Report
import StatScript.Console.Style
import StatScript.Double.Basic
import StatScript.Double.Printer
import StatScript.Double.Reader
import StatScript.Fitting.Body
import StatScript.Fitting.Header
import StatScript.Fitting.Health
import StatScript.Fitting.Program
import StatScript.Fitting.Segment
import StatScript.Fitting.Supply
import StatScript.Limits
import StatScript.Line
import StatScript.Listing
import StatScript.Lowering.Arithmetic
import StatScript.Lowering.Assignment
import StatScript.Lowering.Check
import StatScript.Lowering.Code
import StatScript.Lowering.Context
import StatScript.Lowering.Error
import StatScript.Lowering.Power
import StatScript.Machine
import StatScript.Main
import StatScript.Operand
import StatScript.Proofs.Compilation.Conditional
import StatScript.Proofs.Compilation.Draft
import StatScript.Proofs.Compilation.Expression
import StatScript.Proofs.Compilation.Premise
import StatScript.Proofs.Compilation.Program
import StatScript.Proofs.Compilation.Source
import StatScript.Proofs.Compilation.Statement
import StatScript.Proofs.Fitting.Capacity
import StatScript.Proofs.Fitting.Counting
import StatScript.Proofs.Fitting.Course
import StatScript.Proofs.Fitting.Depth
import StatScript.Proofs.Fitting.Execution
import StatScript.Proofs.Fitting.Exits
import StatScript.Proofs.Fitting.Expansion
import StatScript.Proofs.Fitting.Family
import StatScript.Proofs.Fitting.Health
import StatScript.Proofs.Fitting.Names
import StatScript.Proofs.Fitting.Nesting
import StatScript.Proofs.Fitting.Repetition
import StatScript.Proofs.Fitting.Resumption
import StatScript.Proofs.Fitting.Runtime
import StatScript.Proofs.Fitting.Settled
import StatScript.Proofs.Fitting.Strip
import StatScript.Proofs.Lowering.Power
import StatScript.Proofs.Lowering.Raising
import StatScript.Proofs.Lowering.Tree
import StatScript.Proofs.Machine.Cells
import StatScript.Proofs.Machine.Changes
import StatScript.Proofs.Machine.Reading
import StatScript.Proofs.Machine.Wrapping
import StatScript.Proofs.Script.Finishing
import StatScript.Proofs.Script.Shape
import StatScript.Proofs.Text.Cut
import StatScript.Proofs.Text.Numeral
import StatScript.Proofs.Text.Words
import StatScript.Script
import StatScript.Slot.Basic
import StatScript.Slot.Registry
import StatScript.Text.Blank
import StatScript.Text.Cut
import StatScript.Text.Numeral
import StatScript.ValueType
import StatScript.Proofs.Fitting.Grammar
import StatScript.Proofs.Fitting.Intervention
import StatScript.Proofs.Lowering.Mention
import StatScript.Proofs.Lowering.Scope
import StatScript.Proofs.Lowering.Transcript
import StatScript.Proofs.Slot.Texts
import StatScript.Proofs.Fitting.Naming
import StatScript.Proofs.Fitting.Calls
import StatScript.Proofs.Lowering.Finiteness
import StatScript.Proofs.Lowering.Arithmetic
import StatScript.Proofs.Machine.Remainder
import StatScript.Proofs.Lowering.InPlace
import StatScript.Proofs.Lowering.Stepwise
import StatScript.Proofs.Lowering.Atomic
import StatScript.Proofs.Script.Control
import StatScript.Proofs.Console.Refusal
import StatScript.Proofs.Lowering.Modulo
import StatScript.Proofs.Lowering.Sign
import StatScript.Proofs.Fitting.Worklist
import StatScript.Proofs.Lowering.Decomposition
import StatScript.Proofs.Machine.Unbounded
import StatScript.Proofs.Lowering.ExactPower
import StatScript.Proofs.Lowering.Strategy
import StatScript.Proofs.Fitting.Origin
import StatScript.Proofs.Fitting.Remark
import StatScript.Proofs.Script.Entry
import StatScript.Proofs.Fitting.Placeholders
import StatScript.Proofs.Script.Checkpoints
import StatScript.Proofs.Fitting.Greedy
import StatScript.Proofs.Script.Indentation
import StatScript.Proofs.Lowering.Typing
import StatScript.Proofs.Slot.Declaration
import StatScript.Proofs.Listing.Tape
import StatScript.Proofs.Fitting.Locality
import StatScript.Proofs.Console.Highlight
