import ProjectConsistency.Analysis
import ProjectConsistency.Assoc
import ProjectConsistency.CommandLine.Arguments
import ProjectConsistency.CommandLine.Options
import ProjectConsistency.CommandLine.Run
import ProjectConsistency.Decimal.Double
import ProjectConsistency.Decimal.Shortest
import ProjectConsistency.Failure
import ProjectConsistency.FileSystem.Change
import ProjectConsistency.FileSystem.Node
import ProjectConsistency.FileSystem.Operation
import ProjectConsistency.FileSystem.RawName
import ProjectConsistency.FileSystem.OsError
import ProjectConsistency.FileSystem.Resolve
import ProjectConsistency.Fix.Apply
import ProjectConsistency.Fix.Creation
import ProjectConsistency.Fix.Formatter
import ProjectConsistency.Fix.Record
import ProjectConsistency.Fix.Rename
import ProjectConsistency.Fix.Scaffold
import ProjectConsistency.Fix.Selection
import ProjectConsistency.Glob.Match
import ProjectConsistency.Glob.NameFilter
import ProjectConsistency.Glob.Parser
import ProjectConsistency.Glob.Pattern
import ProjectConsistency.Issue
import ProjectConsistency.Json.Basic
import ProjectConsistency.Json.Error
import ProjectConsistency.Json.Parser
import ProjectConsistency.Json.Printer
import ProjectConsistency.Main
import ProjectConsistency.Naming.Casing
import ProjectConsistency.Naming.Convert
import ProjectConsistency.Naming.Words
import ProjectConsistency.Path
import ProjectConsistency.Project.ConfigFile
import ProjectConsistency.Project.FileType
import ProjectConsistency.Project.Manifest
import ProjectConsistency.Project.ProjectType
import ProjectConsistency.Project.Snapshot
import ProjectConsistency.Proofs.Assoc.Ascending
import ProjectConsistency.Proofs.CommandLine.FixRun
import ProjectConsistency.Proofs.CommandLine.Initialised
import ProjectConsistency.Proofs.CommandLine.Loading
import ProjectConsistency.Proofs.CommandLine.Reported
import ProjectConsistency.Proofs.FileSystem.Effect
import ProjectConsistency.Proofs.FileSystem.Grown
import ProjectConsistency.Proofs.FileSystem.Guard
import ProjectConsistency.Proofs.FileSystem.Inside
import ProjectConsistency.Proofs.FileSystem.Joined
import ProjectConsistency.Proofs.FileSystem.Lasting
import ProjectConsistency.Proofs.FileSystem.Leads
import ProjectConsistency.Proofs.FileSystem.Locations
import ProjectConsistency.Proofs.FileSystem.Making
import ProjectConsistency.Proofs.FileSystem.Revealed
import ProjectConsistency.Proofs.FileSystem.Shape
import ProjectConsistency.Proofs.FileSystem.Straight
import ProjectConsistency.Proofs.FileSystem.WellFormed
import ProjectConsistency.Proofs.FileSystem.Written
import ProjectConsistency.Proofs.Fix.Attempts
import ProjectConsistency.Proofs.Fix.Cleared
import ProjectConsistency.Proofs.Fix.Containment
import ProjectConsistency.Proofs.Fix.CreationPlan
import ProjectConsistency.Proofs.Fix.Effects
import ProjectConsistency.Proofs.Fix.Preservation
import ProjectConsistency.Proofs.Fix.Relabelling
import ProjectConsistency.Proofs.Fix.Reliance
import ProjectConsistency.Proofs.Fix.RenameOrder
import ProjectConsistency.Proofs.Fix.RenamePlan
import ProjectConsistency.Proofs.Fix.Rested
import ProjectConsistency.Proofs.Fix.Scaffolded
import ProjectConsistency.Proofs.Fix.Settled
import ProjectConsistency.Proofs.Fix.Standing
import ProjectConsistency.Proofs.Fix.Taken
import ProjectConsistency.Proofs.Fix.Turns
import ProjectConsistency.Proofs.Fix.Upkeep
import ProjectConsistency.Proofs.Json.Ordered
import ProjectConsistency.Proofs.Json.Positions
import ProjectConsistency.Proofs.Json.Printed
import ProjectConsistency.Proofs.Json.Tidied
import ProjectConsistency.Proofs.Json.Written
import ProjectConsistency.Proofs.Naming.Compliance
import ProjectConsistency.Proofs.Naming.Conversion
import ProjectConsistency.Proofs.Naming.Letters
import ProjectConsistency.Proofs.Naming.Repeated
import ProjectConsistency.Proofs.Naming.Segments
import ProjectConsistency.Proofs.Naming.Words
import ProjectConsistency.Proofs.Path.Above
import ProjectConsistency.Proofs.Path.Ancestors
import ProjectConsistency.Proofs.Path.Names
import ProjectConsistency.Proofs.Project.Comments
import ProjectConsistency.Proofs.Project.FaultLines
import ProjectConsistency.Proofs.Project.Groups
import ProjectConsistency.Proofs.Project.Requirements
import ProjectConsistency.Proofs.Project.Tracked
import ProjectConsistency.Proofs.Report.Coloured
import ProjectConsistency.Proofs.Report.Sizes
import ProjectConsistency.Proofs.Rules.BlankLines
import ProjectConsistency.Proofs.Rules.CommentLines
import ProjectConsistency.Proofs.Rules.Families
import ProjectConsistency.Proofs.Rules.Fences
import ProjectConsistency.Proofs.Rules.InOrder
import ProjectConsistency.Proofs.Rules.Inspected
import ProjectConsistency.Proofs.Rules.MissingKeys
import ProjectConsistency.Proofs.Rules.Noticed
import ProjectConsistency.Proofs.Rules.Recurring
import ProjectConsistency.Proofs.Rules.Requests
import ProjectConsistency.Proofs.Rules.Sections
import ProjectConsistency.Proofs.Rules.Tightened
import ProjectConsistency.Proofs.Standards.Accepted
import ProjectConsistency.Proofs.Standards.BuiltIn
import ProjectConsistency.Proofs.Standards.Collections
import ProjectConsistency.Proofs.Standards.Distinct
import ProjectConsistency.Proofs.Standards.Encoded
import ProjectConsistency.Proofs.Standards.Fields
import ProjectConsistency.Proofs.Standards.Layering
import ProjectConsistency.Proofs.Standards.Lists
import ProjectConsistency.Proofs.Standards.Merged
import ProjectConsistency.Proofs.Standards.RequiredKeys
import ProjectConsistency.Proofs.Standards.Resolved
import ProjectConsistency.Proofs.Standards.RoundTrip
import ProjectConsistency.Proofs.Standards.Sound
import ProjectConsistency.Proofs.Standards.UnknownKeys
import ProjectConsistency.Proofs.Text.ByteOrder
import ProjectConsistency.Proofs.Text.CaseImages
import ProjectConsistency.Proofs.Text.Lines
import ProjectConsistency.Proofs.Text.Trim
import ProjectConsistency.Proofs.Toml.Ordered
import ProjectConsistency.Proofs.Validation.Recommended
import ProjectConsistency.Proofs.Validation.Scored
import ProjectConsistency.Proofs.Walk.Carried
import ProjectConsistency.Proofs.Walk.Coherent
import ProjectConsistency.Proofs.Walk.Deepest
import ProjectConsistency.Proofs.Walk.Described
import ProjectConsistency.Proofs.Walk.Ending
import ProjectConsistency.Proofs.Walk.Excluded
import ProjectConsistency.Proofs.Walk.Following
import ProjectConsistency.Proofs.Walk.Inserted
import ProjectConsistency.Proofs.Walk.Inventory
import ProjectConsistency.Proofs.Walk.Iterator
import ProjectConsistency.Proofs.Walk.Kept
import ProjectConsistency.Proofs.Walk.Listing
import ProjectConsistency.Proofs.Walk.Opened
import ProjectConsistency.Proofs.Walk.Order
import ProjectConsistency.Proofs.Walk.Passage
import ProjectConsistency.Proofs.Walk.Places
import ProjectConsistency.Proofs.Walk.Pruned
import ProjectConsistency.Proofs.Walk.Repeats
import ProjectConsistency.Proofs.Walk.Root
import ProjectConsistency.Proofs.Walk.Session
import ProjectConsistency.Proofs.Walk.Snapshot
import ProjectConsistency.Proofs.Walk.Spliced
import ProjectConsistency.Proofs.Walk.Spread
import ProjectConsistency.Recommendation
import ProjectConsistency.Report.Ansi
import ProjectConsistency.Report.Basic
import ProjectConsistency.Report.Diagnostic
import ProjectConsistency.Report.Json
import ProjectConsistency.Report.Size
import ProjectConsistency.Report.Text
import ProjectConsistency.Rules.Configuration
import ProjectConsistency.Rules.Documentation
import ProjectConsistency.Rules.Naming
import ProjectConsistency.Rules.Structure
import ProjectConsistency.Rules.Style
import ProjectConsistency.Score
import ProjectConsistency.Standards.Encode
import ProjectConsistency.Standards.Layers
import ProjectConsistency.Standards.Loader
import ProjectConsistency.Standards.Mismatch
import ProjectConsistency.Standards.Model
import ProjectConsistency.Standards.Preset
import ProjectConsistency.Standards.Schema
import ProjectConsistency.Standards.Template
import ProjectConsistency.Text.Alphabetic
import ProjectConsistency.Text.Blank
import ProjectConsistency.Text.CaseContext
import ProjectConsistency.Text.CaseMapping
import ProjectConsistency.Text.LetterCase
import ProjectConsistency.Text.Lines
import ProjectConsistency.Text.Numeric
import ProjectConsistency.Text.Quoted
import ProjectConsistency.Text.RunTable
import ProjectConsistency.Text.Split
import ProjectConsistency.Text.Utf8
import ProjectConsistency.Timestamp
import ProjectConsistency.Toml.Document
import ProjectConsistency.Toml.Parser
import ProjectConsistency.Toml.Quoted
import ProjectConsistency.Toml.Scalar
import ProjectConsistency.Toml.Trivia
import ProjectConsistency.Toml.Value
import ProjectConsistency.Validation
import ProjectConsistency.Walk
