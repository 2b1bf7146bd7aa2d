import MarkupRepair.Clock.Instant
import MarkupRepair.CommandLine.Argument
import MarkupRepair.CommandLine.Command
import MarkupRepair.CommandLine.Execution
import MarkupRepair.Config.File
import MarkupRepair.Config.Merge
import MarkupRepair.Diff.Chunk
import MarkupRepair.Diff.Compact
import MarkupRepair.Diff.Patch
import MarkupRepair.Diff.Shortest
import MarkupRepair.Issue.Analysis
import MarkupRepair.Issue.Balance
import MarkupRepair.Issue.Basic
import MarkupRepair.Issue.Classify
import MarkupRepair.Issue.Encoding
import MarkupRepair.Issue.Explanation
import MarkupRepair.Json.Pretty
import MarkupRepair.Json.Text
import MarkupRepair.Json.Value
import MarkupRepair.Main
import MarkupRepair.Markup.Attribute
import MarkupRepair.Markup.Element
import MarkupRepair.Markup.Encoding
import MarkupRepair.Markup.Entity
import MarkupRepair.Markup.Header
import MarkupRepair.Markup.Hidden
import MarkupRepair.Markup.Scan
import MarkupRepair.Markup.Tag
import MarkupRepair.Path.Basic
import MarkupRepair.Path.Glob
import MarkupRepair.Proofs.Defect.Declarations
import MarkupRepair.Proofs.Defect.Issues
import MarkupRepair.Proofs.Defect.Mending
import MarkupRepair.Proofs.Defect.Piece
import MarkupRepair.Proofs.Defect.Repair
import MarkupRepair.Proofs.Defect.Root
import MarkupRepair.Proofs.Defect.Scan
import MarkupRepair.Proofs.Defect.Site
import MarkupRepair.Proofs.Defect.Tree
import MarkupRepair.Proofs.Issue.Analysis
import MarkupRepair.Proofs.Markup.Extent
import MarkupRepair.Proofs.Markup.Reading
import MarkupRepair.Proofs.Markup.Scanning
import MarkupRepair.Proofs.Repair.Content
import MarkupRepair.Proofs.Repair.Place
import MarkupRepair.Proofs.Repair.Passes
import MarkupRepair.Proofs.Repair.Planning
import MarkupRepair.Proofs.Repair.Rootless
import MarkupRepair.Proofs.Report.Verdict
import MarkupRepair.Proofs.Run.Document
import MarkupRepair.Proofs.Run.DryRun
import MarkupRepair.Proofs.Run.ExitCode
import MarkupRepair.Proofs.Run.Faultless
import MarkupRepair.Proofs.Run.OneFailure
import MarkupRepair.Proofs.Storage.Budget
import MarkupRepair.Proofs.Storage.Commit
import MarkupRepair.Proofs.Storage.Conduct
import MarkupRepair.Proofs.Storage.Ending
import MarkupRepair.Proofs.Storage.Restored
import MarkupRepair.Proofs.Storage.Session
import MarkupRepair.Proofs.Text.Lines
import MarkupRepair.Proofs.Text.Parts
import MarkupRepair.Repair.Fix
import MarkupRepair.Repair.Passes
import MarkupRepair.Repair.Plan
import MarkupRepair.Repair.Policy
import MarkupRepair.Repair.Wildcard
import MarkupRepair.Report.Artifacts
import MarkupRepair.Report.Encoding
import MarkupRepair.Report.File
import MarkupRepair.Report.Render
import MarkupRepair.Report.Run
import MarkupRepair.Run.Cancellation
import MarkupRepair.Run.Discovery
import MarkupRepair.Run.Document
import MarkupRepair.Run.Documents
import MarkupRepair.Run.Lock
import MarkupRepair.Run.Settings
import MarkupRepair.Storage.Backup
import MarkupRepair.Storage.Commit
import MarkupRepair.Storage.EditError
import MarkupRepair.Storage.Failure
import MarkupRepair.Storage.Fault
import MarkupRepair.Storage.Memory
import MarkupRepair.Storage.Script
import MarkupRepair.Storage.Search
import MarkupRepair.Storage.Sha256
import MarkupRepair.Storage.Tree
import MarkupRepair.Text.Basic
import MarkupRepair.Text.LineIndex
import MarkupRepair.Text.Quoted
import MarkupRepair.Text.Unseen
import MarkupRepair.Text.Utf8
import MarkupRepair.Text.WhiteSpace
import MarkupRepair.Text.WordChar
import MarkupRepair.Toml.Document
import MarkupRepair.Toml.Quoted
import MarkupRepair.Toml.Scalar
import MarkupRepair.Toml.Table
import MarkupRepair.Toml.Value
import MarkupRepair.Proofs.Run.SecondRun
import MarkupRepair.Proofs.Markup.Sections
import MarkupRepair.Proofs.Markup.Tokens
import MarkupRepair.Proofs.Markup.Landmarks
import MarkupRepair.Proofs.Repair.Sources
import MarkupRepair.Proofs.Repair.Sheltered
import MarkupRepair.Proofs.Repair.Sections
import MarkupRepair.Proofs.Repair.Confined
import MarkupRepair.Proofs.Markup.SelfClosing
import MarkupRepair.Proofs.Repair.Anchored
import MarkupRepair.Proofs.Issue.Nesting
import MarkupRepair.Proofs.Issue.Pairing
import MarkupRepair.Proofs.Storage.Course
import MarkupRepair.Proofs.Markup.TagEnd
import MarkupRepair.Proofs.Repair.Edits
import MarkupRepair.Proofs.Repair.Anchors
import MarkupRepair.Proofs.Repair.Expansion
import MarkupRepair.Proofs.Repair.Confinement
import MarkupRepair.Proofs.Run.Vouching
import MarkupRepair.Proofs.Storage.Footprint
import MarkupRepair.Proofs.Storage.Interleaving
import MarkupRepair.Proofs.Run.Parallel
import MarkupRepair.Proofs.Markup.Grammar
import MarkupRepair.Proofs.Markup.Pattern
import MarkupRepair.Proofs.Markup.TagPattern
import MarkupRepair.Proofs.Slicing.Attributes
import MarkupRepair.Proofs.Slicing.Scanning
import MarkupRepair.Proofs.Slicing.Edits
import MarkupRepair.Proofs.Slicing.Fixes
import MarkupRepair.Proofs.Slicing.Repairing
import MarkupRepair.Proofs.Json.Alike
import MarkupRepair.Proofs.Issue.Encoding
import MarkupRepair.Proofs.Report.Encoding
import MarkupRepair.Proofs.Config.Policy
import MarkupRepair.Proofs.Run.FailFast
import MarkupRepair.Proofs.Run.Exclusion
import MarkupRepair.Proofs.Run.Queries
import MarkupRepair.Proofs.Run.LockRules
import MarkupRepair.Proofs.Markup.References
import MarkupRepair.Proofs.Repair.Entities
import MarkupRepair.Proofs.Markup.Insertion
import MarkupRepair.Proofs.Repair.Termination
import MarkupRepair.Proofs.Issue.Places
import MarkupRepair.Proofs.Issue.Outline
import MarkupRepair.Proofs.Markup.Apart
import MarkupRepair.Proofs.Repair.Allotment
import MarkupRepair.Proofs.Repair.SelfClosed
import MarkupRepair.Proofs.Repair.Closing
import MarkupRepair.Proofs.Repair.InPlace
import MarkupRepair.Proofs.Markup.Prolog
import MarkupRepair.Proofs.Repair.Prolog
import MarkupRepair.Proofs.Markup.Attribution
import MarkupRepair.Proofs.Markup.Doctype
import MarkupRepair.Proofs.Markup.Seam
import MarkupRepair.Proofs.Repair.Namespace
import MarkupRepair.Proofs.Repair.Doctype
import MarkupRepair.Proofs.Repair.OwnToken
import MarkupRepair.Proofs.Markup.AtStart
import MarkupRepair.Proofs.Markup.Printing
import MarkupRepair.Proofs.Issue.Order
import MarkupRepair.Proofs.Markup.Outside
import MarkupRepair.Proofs.Issue.Location
import MarkupRepair.Proofs.Markup.Shape
import MarkupRepair.Proofs.Issue.Contents
import MarkupRepair.Proofs.Repair.Wildcard
import MarkupRepair.Proofs.Report.Reasons
import MarkupRepair.Proofs.Text.LineSpans
import MarkupRepair.Proofs.Markup.Spans
import MarkupRepair.Proofs.Text.Bytes
import MarkupRepair.Proofs.Markup.Masking
