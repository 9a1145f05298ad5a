import Easel.Canvas
import Easel.Decimal.Binary
import Easel.Decimal.Reading
import Easel.Decimal.Shortest
import Easel.Error
import Easel.Expression.Arithmetic
import Easel.Expression.Condition
import Easel.Expression.Text
import Easel.Expression.Token
import Easel.Line
import Easel.Main
import Easel.Method
import Easel.Pairing
import Easel.Program
import Easel.Scanner
import Easel.Session.Basic
import Easel.Session.Run
import Easel.Session.Step
import Easel.Source
import Easel.Stack
import Easel.Statement.Basic
import Easel.Statement.ForHeader
import Easel.Statement.Reading
import Easel.Terminal.Folder
import Easel.Terminal.Options
import Easel.Terminal.Prompt
import Easel.Terminal.Screen
import Easel.Terminal.Transcript
import Easel.Text.Basic
import Easel.Text.Blank
import Easel.Text.Name
import Easel.Value
import Easel.Variables
import Easel.Proofs.Blocks.Tree
import Easel.Proofs.Outcomes
import Easel.Proofs.Statement.Reading
import Easel.Proofs.Blocks.Outline
import Easel.Proofs.Blocks.Nesting
import Easel.Proofs.Blocks.Grammar
import Easel.Proofs.Blocks.Acceptance
import Easel.Proofs.Structured.Meaning
import Easel.Proofs.Session.Actions
import Easel.Proofs.Session.Steps
import Easel.Proofs.Expression.Spacing
import Easel.Proofs.Expression.Terms
import Easel.Proofs.Expression.Formulas
import Easel.Proofs.Expression.Conditions
import Easel.Proofs.Faults
import Easel.Proofs.Session.Frames
import Easel.Proofs.Session.Calls
import Easel.Proofs.Session.Loops
import Easel.Proofs.Structured.Simulation
import Easel.Proofs.Structured.Refinement
import Easel.Proofs.Session.Operations
import Easel.Proofs.Expression.Evaluation
import Easel.Proofs.Source.Lines
import Easel.Proofs.Source.Numbering
import Easel.Proofs.Text.Words
import Easel.Proofs.Statement.Declaring
import Easel.Proofs.Source.Declarations
import Easel.Proofs.Source.Assignments
import Easel.Proofs.Session.Scopes
import Easel.Proofs.Session.Batches
import Easel.Proofs.Terminal.Scripts
import Easel.Proofs.Session.Termination
import Easel.Proofs.Statement.Fields
import Easel.Proofs.Statement.Printing
import Easel.Proofs.Session.Changes
import Easel.Proofs.Session.Kinds
import Easel.Proofs.Session.Failures
import Easel.Proofs.Session.Rounds
import Easel.Proofs.Terminal.Listings
import Easel.Proofs.Expression.Concatenation
import Easel.Proofs.Expression.Literals
import Easel.Proofs.Session.Seeds
import Easel.Proofs.Session.Binding
import Easel.Proofs.Session.CallFailures
import Easel.Proofs.Source.Idempotence
import Easel.Proofs.Blocks.Indentation
import Easel.Proofs.Session.Cells
import Easel.Proofs.Text.Patterns
import Easel.Proofs.Statement.LoopPattern
import Easel.Proofs.Statement.SurfaceForms
import Easel.Proofs.Session.Limits
import Easel.Proofs.Decimal.Range
import Easel.Proofs.Expression.Overflow
import Easel.Proofs.Expression.Positions
import Easel.Proofs.Expression.Scanning
