import ModelSource.Command.Arguments
import ModelSource.Command.Basic
import ModelSource.Command.Run
import ModelSource.Comment
import ModelSource.Construct.Basic
import ModelSource.Construct.Builder
import ModelSource.Declaration
import ModelSource.Demo
import ModelSource.Demo.Circuit
import ModelSource.Demo.ElectricalGrid
import ModelSource.Demo.Equations
import ModelSource.Demo.GasGrid
import ModelSource.Demo.Rod
import ModelSource.Demo.Script
import ModelSource.DisplayUnit
import ModelSource.Document.Annotations
import ModelSource.Document.Basic
import ModelSource.Document.Build
import ModelSource.Document.Drawing
import ModelSource.Element
import ModelSource.Emitter
import ModelSource.Equation
import ModelSource.Error
import ModelSource.Flag
import ModelSource.Geometry
import ModelSource.Kind
import ModelSource.Main
import ModelSource.Number.Binary64
import ModelSource.Number.Digits
import ModelSource.Number.Lattice
import ModelSource.Number.Rounding
import ModelSource.Number.Shortest
import ModelSource.Number.Significant
import ModelSource.Options
import ModelSource.Ordered
import ModelSource.Package.FileTree
import ModelSource.Package.Save
import ModelSource.Pen.Basic
import ModelSource.Pen.Document
import ModelSource.Pen.Element
import ModelSource.Pen.Value
import ModelSource.Placement
import ModelSource.Printer.Document
import ModelSource.Printer.Element
import ModelSource.Printer.Value
import ModelSource.Printout
import ModelSource.Proofs.Adding
import ModelSource.Proofs.Atomicity
import ModelSource.Proofs.Built
import ModelSource.Proofs.Canonical
import ModelSource.Proofs.Columns
import ModelSource.Proofs.Comments
import ModelSource.Proofs.Composition
import ModelSource.Proofs.Culprit
import ModelSource.Proofs.Descriptions
import ModelSource.Proofs.DrawnLines
import ModelSource.Proofs.DrawnText
import ModelSource.Proofs.FlagOrder
import ModelSource.Proofs.FlagSets
import ModelSource.Proofs.GridRounding
import ModelSource.Proofs.Grouping
import ModelSource.Proofs.IfExpressions
import ModelSource.Proofs.Layout
import ModelSource.Proofs.Leftovers
import ModelSource.Proofs.Lines
import ModelSource.Proofs.Literals
import ModelSource.Proofs.Lossless
import ModelSource.Proofs.Manifest
import ModelSource.Proofs.NumberLiterals
import ModelSource.Proofs.NumberText
import ModelSource.Proofs.OpenPart
import ModelSource.Proofs.PenWrites
import ModelSource.Proofs.Places
import ModelSource.Proofs.Placing
import ModelSource.Proofs.Reachable
import ModelSource.Proofs.Registry
import ModelSource.Proofs.Relocation
import ModelSource.Proofs.Saving
import ModelSource.Proofs.Sectioning
import ModelSource.Proofs.ShortestDecimal
import ModelSource.Proofs.SignificantDigits
import ModelSource.Proofs.TreeText
import ModelSource.Proofs.Unambiguous
import ModelSource.Proofs.Visits
import ModelSource.Proofs.Walks
import ModelSource.Proofs.WellFormed
import ModelSource.Proofs.WholeNumbers
import ModelSource.Render
import ModelSource.Section
import ModelSource.Section.Basic
import ModelSource.Text.Blank
import ModelSource.Text.Quoted
import ModelSource.Text.Utf8
import ModelSource.Toml.Lexeme
import ModelSource.Toml.Reader
import ModelSource.Toml.Table
import ModelSource.Tree
import ModelSource.Value.Basic
import ModelSource.Value.Path
import ModelSource.Value.Scalar
