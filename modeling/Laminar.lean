import Laminar.Numeral
import Laminar.Span
import Laminar.Span.Gaps
import Laminar.Text.CodePoint
import Laminar.Text.Blank
import Laminar.Text.Lines
import Laminar.Text.Visible
import Laminar.Text.Quoted
import Laminar.Text.Case
import Laminar.Kind
import Laminar.Tag
import Laminar.HierarchyError
import Laminar.Tag.Line
import Laminar.Grove
import Laminar.Grove.Drawing
import Laminar.Nesting
import Laminar.Nesting.Sweep
import Laminar.Coverage
import Laminar.Coverage.Linked
import Laminar.Forest
import Laminar.Forest.Item
import Laminar.NodeStore
import Laminar.Forest.Linked
import Laminar.NodeStore.Walk
import Laminar.Forest.Check
import Laminar.Toml.Reader
import Laminar.Toml.Text
import Laminar.Toml.Number
import Laminar.Toml.Value
import Laminar.Toml.Document
import Laminar.Path
import Laminar.Host
import Laminar.FileTree
import Laminar.Settings
import Laminar.Settings.Fault
import Laminar.Settings.File
import Laminar.Settings.Environment
import Laminar.Settings.Load
import Laminar.Command.Size
import Laminar.Command.Failure
import Laminar.Command.Arguments
import Laminar.Command.Run
import Laminar.Main
import Laminar.Proofs.Span
import Laminar.Proofs.Span.Gaps
import Laminar.Proofs.Grove
import Laminar.Proofs.Grove.Within
import Laminar.Proofs.Grove.Pruning
import Laminar.Proofs.Grove.Links
import Laminar.Proofs.Nesting.Order
import Laminar.Proofs.Nesting.Sweep
import Laminar.Proofs.Nesting
import Laminar.Proofs.Coverage.Admission
import Laminar.Proofs.Coverage.Tiling
import Laminar.Proofs.Coverage.Fragments
import Laminar.Proofs.Coverage.Pointwise
import Laminar.Proofs.Nesting.Enclosers
import Laminar.Proofs.Forest.Arrangement
import Laminar.Proofs.Forest.Ancestry
import Laminar.Proofs.Forest.Spans
import Laminar.Proofs.NodeStore
import Laminar.Proofs.NodeStore.Trees
import Laminar.Proofs.NodeStore.Walk
import Laminar.Proofs.Coverage.Emission
import Laminar.Proofs.Coverage.Refusal
import Laminar.Proofs.Numeral
import Laminar.Proofs.Outcome
import Laminar.Proofs.Text
import Laminar.Proofs.Kind
import Laminar.Proofs.Tag.Shape
import Laminar.Proofs.Tag.RoundTrip
import Laminar.Proofs.Coverage.Filling
import Laminar.Proofs.Coverage.Gathering
import Laminar.Proofs.Coverage.Arranging
import Laminar.Proofs.Coverage.Linked
import Laminar.Proofs.Coverage.Flattening
import Laminar.Proofs.Forest.Links
import Laminar.Proofs.Forest.Linked
import Laminar.Proofs.Forest.Tree
import Laminar.Proofs.Nesting.Renumbering
import Laminar.Proofs.Coverage.Skipping
import Laminar.Proofs.Nesting.Degenerate
import Laminar.Proofs.Coverage.ParentMap
import Laminar.Proofs.Tag.Deletion
import Laminar.Proofs.Coverage.Widening
import Laminar.Proofs.Command.FileSpan
import Laminar.Proofs.Tag.Grammar
import Laminar.Proofs.Coverage.Preorder
import Laminar.Proofs.Span.Complement
import Laminar.Proofs.Nesting.Crossings
import Laminar.Proofs.Forest.Alike
import Laminar.Proofs.NodeStore.Ascent
import Laminar.Proofs.Forest.Conservation
import Laminar.Proofs.Forest.Tightness
import Laminar.Proofs.Grove.Ordered
import Laminar.Proofs.Forest.Siblings
import Laminar.Proofs.Forest.Walk
import Laminar.Proofs.Forest.Check
import Laminar.Proofs.Tag.Joining
import Laminar.Proofs.Grove.Drawing
import Laminar.Proofs.NodeStore.Places
import Laminar.Proofs.Coverage.Drawing
import Laminar.Proofs.Command.Files
import Laminar.Proofs.Command.Size
import Laminar.Proofs.Command.DefaultSpan
import Laminar.Proofs.Settings.Layers
import Laminar.Proofs.Toml.Text
import Laminar.Proofs.Toml.Document
import Laminar.Proofs.Settings.Reload
import Laminar.Proofs.NodeStore.Descent
import Laminar.Proofs.NodeStore.Traversal
import Laminar.Proofs.NodeStore.WellLinked
import Laminar.Proofs.NodeStore.Operations
import Laminar.Proofs.Forest.Rounds
