import CqlDelta.Cql.Exchange
import CqlDelta.Cql.Options
import CqlDelta.Cql.Rendering
import CqlDelta.Cql.Statement
import CqlDelta.Cql.Table
import CqlDelta.Cql.Typing
import CqlDelta.Decimal.Binary64
import CqlDelta.Decimal.Layout
import CqlDelta.Decimal.Shortest
import CqlDelta.Delta.Attributes
import CqlDelta.Delta.Node
import CqlDelta.Delta.Reading
import CqlDelta.Delta.Writing
import CqlDelta.Json.Fault
import CqlDelta.Json.Numeral
import CqlDelta.Json.Quoted
import CqlDelta.Json.Reader
import CqlDelta.Json.Record
import CqlDelta.Json.Sorted
import CqlDelta.Json.Tree
import CqlDelta.Json.Typed
import CqlDelta.Json.Value
import CqlDelta.Listing
import CqlDelta.Main
import CqlDelta.Plan.Compile
import CqlDelta.Plan.Context
import CqlDelta.Plan.Keyspaces
import CqlDelta.Plan.Making
import CqlDelta.Plan.Scope
import CqlDelta.Plan.Tables
import CqlDelta.Plan.Types
import CqlDelta.Plan.Version
import CqlDelta.Program.Arguments
import CqlDelta.Program.Disk
import CqlDelta.Program.Failure
import CqlDelta.Program.Manual
import CqlDelta.Program.Run
import CqlDelta.Proofs.Delta.Attributes
import CqlDelta.Proofs.Delta.Distinct
import CqlDelta.Proofs.Delta.Nodes
import CqlDelta.Proofs.Delta.RoundTrip
import CqlDelta.Proofs.Delta.Tours
import CqlDelta.Proofs.Json.Records
import CqlDelta.Proofs.Json.Recovery
import CqlDelta.Proofs.Json.Routes
import CqlDelta.Proofs.Json.WrittenText
import CqlDelta.Proofs.Plan.Account
import CqlDelta.Proofs.Plan.Blocks
import CqlDelta.Proofs.Plan.Dependencies
import CqlDelta.Proofs.Plan.Entries
import CqlDelta.Proofs.Plan.EntryStatements
import CqlDelta.Proofs.Plan.Faults
import CqlDelta.Proofs.Plan.HandOver
import CqlDelta.Proofs.Plan.Isolation
import CqlDelta.Proofs.Plan.Removals
import CqlDelta.Proofs.Plan.Sections
import CqlDelta.Proofs.Plan.Trail
import CqlDelta.Text.Blank
import CqlDelta.Text.Lines
import CqlDelta.Text.Quoted
import CqlDelta.Text.Ranges
import CqlDelta.Text.Unprintable
import CqlDelta.Text.Visible
import CqlDelta.Proofs.Json.Layouts
import CqlDelta.Proofs.Cql.WrittenStatements
import CqlDelta.Proofs.Program.WrittenFiles
import CqlDelta.Proofs.Program.Commands
import CqlDelta.Proofs.Program.AllOrNothing
import CqlDelta.Proofs.Delta.Contents
import CqlDelta.Proofs.Plan.Wording
import CqlDelta.Proofs.Text.Scanning
import CqlDelta.Proofs.Plan.SealedStatements
import CqlDelta.Proofs.Plan.InPlace
import CqlDelta.Proofs.Text.BlankLines
import CqlDelta.Proofs.Cql.StatementLines
import CqlDelta.Proofs.Plan.Paragraphs
import CqlDelta.Proofs.Plan.FanOut
import CqlDelta.Proofs.Plan.CreatedTypes
import CqlDelta.Proofs.Plan.OneByOne
import CqlDelta.Proofs.Delta.EnlistedNodes
import CqlDelta.Proofs.Plan.AlikeEntries
import CqlDelta.Proofs.Plan.EnlistedItems
import CqlDelta.Proofs.Json.Agreement
import CqlDelta.Proofs.Json.Sorting
import CqlDelta.Proofs.Json.SteadyRecords
import CqlDelta.Proofs.Delta.SortedAttributes
import CqlDelta.Proofs.Delta.SortedNodes
import CqlDelta.Proofs.Plan.ColumnCoverage
import CqlDelta.Proofs.Plan.FieldRenames
import CqlDelta.Proofs.Plan.Retypes
import CqlDelta.Proofs.Plan.LastCreated
import CqlDelta.Proofs.Plan.CreatedTables
import CqlDelta.Proofs.Cql.StoredOptions
import CqlDelta.Proofs.Plan.OptionChanges
import CqlDelta.Proofs.Cql.OptionLiterals
import CqlDelta.Proofs.Cql.Replication
import CqlDelta.Proofs.Cql.SettledOptions
import CqlDelta.Proofs.Plan.CommentChanges
import CqlDelta.Proofs.Delta.ListedMembers
import CqlDelta.Proofs.Plan.LegacyModels
import CqlDelta.Proofs.Plan.ListedEntries
import CqlDelta.Proofs.Plan.KeyspaceSections
import CqlDelta.Proofs.Json.Tokens
import CqlDelta.Proofs.Json.Spellings
import CqlDelta.Proofs.Json.Places
import CqlDelta.Proofs.Json.Thorough
import CqlDelta.Proofs.Json.RecordEdits
import CqlDelta.Proofs.Json.Sites
import CqlDelta.Proofs.Delta.AttributeSites
import CqlDelta.Proofs.Delta.NodeRecords
import CqlDelta.Proofs.Delta.NodeSites
import CqlDelta.Proofs.Delta.TextEdits
import CqlDelta.Proofs.Text.Delimiting
import CqlDelta.Proofs.Cql.Unambiguous
