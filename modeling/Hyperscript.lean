import Hyperscript.Text.Blank
import Hyperscript.Text.Digit
import Hyperscript.Text.Quoted
import Hyperscript.Decimal.Shortest
import Hyperscript.Fault
import Hyperscript.Datum.Basic
import Hyperscript.Datum.Spelling
import Hyperscript.Options
import Hyperscript.Interpolation
import Hyperscript.Attribute
import Hyperscript.Mixin
import Hyperscript.Node.Basic
import Hyperscript.Node.Walk
import Hyperscript.Script.Basic
import Hyperscript.Script.Layout
import Hyperscript.Script.Writer
import Hyperscript.Generate
import Hyperscript.Session.Basic
import Hyperscript.Session.Writing
import Hyperscript.Session
import Hyperscript.Compile
import Hyperscript.Rendered
import Hyperscript.Node.Load
import Hyperscript.Document.Scalar
import Hyperscript.Document.Token
import Hyperscript.Document.Reader
import Hyperscript.CommandLine.Arguments
import Hyperscript.CommandLine.Files
import Hyperscript.CommandLine.Run
import Hyperscript.Node.Save
import Hyperscript.Main
import Hyperscript.Proofs.Tree.WellTyped
import Hyperscript.Proofs.Tree.Occurrence
import Hyperscript.Proofs.Generation.Outcome
import Hyperscript.Proofs.Generation.Emission
import Hyperscript.Proofs.Session.Writing
import Hyperscript.Proofs.Compilation
import Hyperscript.Proofs.Acceptance
import Hyperscript.Proofs.Script.Machine
import Hyperscript.Proofs.Tree.Meaning
import Hyperscript.Proofs.Tree.Markup
import Hyperscript.Proofs.Script.Simulation
import Hyperscript.Proofs.Tree.Compositional
import Hyperscript.Proofs.Rendering
import Hyperscript.Proofs.Tree.Expansion
import Hyperscript.Proofs.MixinExpansion
import Hyperscript.Proofs.Script.Uses
import Hyperscript.Proofs.Text.Quiet
import Hyperscript.Proofs.Script.Lines
import Hyperscript.Proofs.ArrayDiscipline
import Hyperscript.Proofs.RootPush
import Hyperscript.Proofs.Text.Nesting
import Hyperscript.Proofs.WellNested
import Hyperscript.Proofs.Tree.Places
import Hyperscript.Proofs.Tree.Schedule
import Hyperscript.Proofs.Script.Events
import Hyperscript.Proofs.Hoisting
import Hyperscript.Proofs.Indentation
import Hyperscript.Proofs.Tree.Shape
import Hyperscript.Proofs.Generation.Faults
import Hyperscript.Proofs.Loading
import Hyperscript.Proofs.LoadedTrees
import Hyperscript.Proofs.CommandReport
import Hyperscript.Proofs.Text.Slots
import Hyperscript.Proofs.RoundTrip
import Hyperscript.Proofs.Text.Spans
import Hyperscript.Proofs.Unparsing
import Hyperscript.Proofs.TextRuns
import Hyperscript.Proofs.CommandEffects
import Hyperscript.Proofs.Text.Literal
import Hyperscript.Proofs.Text.Json
import Hyperscript.Proofs.AttributeObjects
import Hyperscript.Proofs.Script.Pieces
import Hyperscript.Proofs.Generation.Numbering
import Hyperscript.Proofs.Session.Numbering
import Hyperscript.Proofs.Session.Steps
import Hyperscript.Proofs.Session.Stacks
import Hyperscript.Proofs.Session.Frame
import Hyperscript.Proofs.Session.Alike
import Hyperscript.Proofs.Session.Comments
import Hyperscript.Proofs.Text.Segments
import Hyperscript.Proofs.Text.ScriptString
import Hyperscript.Proofs.AttributeValues
import Hyperscript.Proofs.MixinKeys
import Hyperscript.Proofs.ParameterLists
import Hyperscript.Proofs.Session.Seams
import Hyperscript.Proofs.Literals
import Hyperscript.Proofs.Tree.Addresses
import Hyperscript.Proofs.FunctionScopes
import Hyperscript.Proofs.DatasetKeys
