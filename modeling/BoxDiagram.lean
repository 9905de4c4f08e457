import BoxDiagram.Text.Blank
import BoxDiagram.Text.Alphanumeric
import BoxDiagram.Text.Parser
import BoxDiagram.Span
import BoxDiagram.Scalar
import BoxDiagram.Decimal.Written
import BoxDiagram.Geometry
import BoxDiagram.NodeId
import BoxDiagram.PropertyMap
import BoxDiagram.PropertyList
import BoxDiagram.Line
import BoxDiagram.Parse
import BoxDiagram.Layout
import BoxDiagram.Json.Reader
import BoxDiagram.Decimal.Read
import BoxDiagram.Document
import BoxDiagram.Journal
import BoxDiagram.Report
import BoxDiagram.Settings.Decode
import BoxDiagram.Toml.Reader
import BoxDiagram.FileTree
import BoxDiagram.Command.Arguments
import BoxDiagram.Command.Run
import BoxDiagram.Command.Transcript
import BoxDiagram.Main
import BoxDiagram.Proofs.ForwardEdges
import BoxDiagram.Proofs.Nesting
import BoxDiagram.Proofs.Apart
import BoxDiagram.Proofs.LineCover
import BoxDiagram.Proofs.Pieces
import BoxDiagram.Proofs.Comments
import BoxDiagram.Proofs.ListEntries
import BoxDiagram.Proofs.Commas
import BoxDiagram.Proofs.Declarations
import BoxDiagram.Proofs.BraceMarks
import BoxDiagram.Proofs.OpenBodies
import BoxDiagram.Proofs.Outline
import BoxDiagram.Proofs.OutlineGraph
import BoxDiagram.Proofs.DeclarationGrammar
import BoxDiagram.Proofs.ConnectionGrammar
import BoxDiagram.Proofs.LineKinds
import BoxDiagram.Proofs.PhysicalLines
import BoxDiagram.Proofs.DeclaredNames
import BoxDiagram.Proofs.PathNames
import BoxDiagram.Proofs.Addressing
import BoxDiagram.Proofs.Relayout
import BoxDiagram.Proofs.ForwardBoxes
import BoxDiagram.Proofs.RenamedBoxes
import BoxDiagram.Proofs.Accounts
import BoxDiagram.Proofs.RankGroups
import BoxDiagram.Proofs.Relocation
import BoxDiagram.Proofs.ConnectionPlaces
import BoxDiagram.Proofs.CommentLines
import BoxDiagram.Proofs.FindingGroups
import BoxDiagram.Proofs.Changes
import BoxDiagram.Proofs.StrictReports
import BoxDiagram.Proofs.FileRuns
import BoxDiagram.Proofs.Chains
import BoxDiagram.Proofs.SearchTrace
import BoxDiagram.Proofs.BackEdges
import BoxDiagram.Proofs.LeastRanks
import BoxDiagram.Proofs.NumberedLayers
import BoxDiagram.Proofs.NumberedSweeps
import BoxDiagram.Proofs.CrossingPairs
import BoxDiagram.Proofs.FewestCrossings
import BoxDiagram.Proofs.Mirrored
import BoxDiagram.Proofs.Extent
import BoxDiagram.Proofs.DroppedEdges
import BoxDiagram.Proofs.LoopEdges
import BoxDiagram.Proofs.NamedNodes
import BoxDiagram.Proofs.MergedDeclarations
import BoxDiagram.Proofs.LooseArrows
import BoxDiagram.Proofs.AtomicLines
import BoxDiagram.Proofs.JoinedLists
import BoxDiagram.Proofs.ListedScopes
import BoxDiagram.Proofs.LimitedSinks
