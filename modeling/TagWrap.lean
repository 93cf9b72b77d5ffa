import TagWrap.AttributeName
import TagWrap.CommandLine
import TagWrap.Config
import TagWrap.Data.Datum
import TagWrap.Data.Decode
import TagWrap.Data.Fault
import TagWrap.Decimal.Layout
import TagWrap.Decimal.Shortest
import TagWrap.Diff.Hunk
import TagWrap.Diff.Lines
import TagWrap.Diff.Script
import TagWrap.Diff.Slide
import TagWrap.Dump
import TagWrap.Edit
import TagWrap.Element
import TagWrap.Exclusion
import TagWrap.FileTree
import TagWrap.Glob
import TagWrap.Inspection
import TagWrap.Json.Document
import TagWrap.Json.Reader
import TagWrap.Json.Value
import TagWrap.Json.Writer
import TagWrap.LineEnding
import TagWrap.LineGroup
import TagWrap.LineLimit
import TagWrap.Main
import TagWrap.Nesting
import TagWrap.Path
import TagWrap.Position
import TagWrap.Report.Format
import TagWrap.Report.Output
import TagWrap.Report.Reporter
import TagWrap.Rule
import TagWrap.RuleOptions
import TagWrap.Run
import TagWrap.Text.Blank
import TagWrap.Text.Control
import TagWrap.Text.Offset
import TagWrap.Text.Printable
import TagWrap.Text.Quoted
import TagWrap.Toml.Break
import TagWrap.Toml.Moment
import TagWrap.Toml.Number
import TagWrap.Toml.Quoted
import TagWrap.Toml.Reader
import TagWrap.Toml.Table
import TagWrap.Word
import TagWrap.Proofs.Cut
import TagWrap.Proofs.Splice
import TagWrap.Proofs.Steps
import TagWrap.Proofs.Batch
import TagWrap.Proofs.Place
import TagWrap.Proofs.Trim
import TagWrap.Proofs.Layout
import TagWrap.Proofs.Overflow
import TagWrap.Proofs.Excess
import TagWrap.Proofs.Placement
import TagWrap.Proofs.Moves
import TagWrap.Proofs.Ink
import TagWrap.Proofs.Arrangement
import TagWrap.Proofs.Sweep
import TagWrap.Proofs.LineScript
import TagWrap.Proofs.SlidChanges
import TagWrap.Proofs.Pieces
import TagWrap.Proofs.Hunks
import TagWrap.Proofs.PatchReader
import TagWrap.Proofs.ReadableDiff
import TagWrap.Proofs.FaithfulDiff
import TagWrap.Proofs.NestedTags
import TagWrap.Proofs.Carry
import TagWrap.Proofs.Convergence
import TagWrap.Proofs.NewLines
import TagWrap.Proofs.LineFeeds
import TagWrap.Proofs.Bookkeeping
import TagWrap.Proofs.Writes
import TagWrap.Proofs.ReportedFixes
import TagWrap.Proofs.SourceOrder
import TagWrap.Proofs.ReportOrder
import TagWrap.Proofs.Effects
import TagWrap.Proofs.Alignment
import TagWrap.Proofs.SortedKeys
import TagWrap.Proofs.OptionsFormat
import TagWrap.Proofs.WrittenScalars
import TagWrap.Proofs.WrittenValues
import TagWrap.Proofs.WrittenOptions
import TagWrap.Proofs.LayeredLimits
import TagWrap.Proofs.LinePairs
import TagWrap.Proofs.Totals
import TagWrap.Proofs.Shuffles
import TagWrap.Proofs.Simultaneous
import TagWrap.Proofs.Laminarity
import TagWrap.Proofs.WellFormedTags
import TagWrap.Proofs.LinePartition
import TagWrap.Proofs.LeadingBlanks
import TagWrap.Proofs.LineTable
import TagWrap.Proofs.NameGrammar
import TagWrap.Proofs.SplitBatches
import TagWrap.Proofs.ExcludedDirectories
import TagWrap.Proofs.SpacedIndents
import TagWrap.Proofs.Surroundings
import TagWrap.Proofs.CheckedTags
import TagWrap.Proofs.CheckedInspection
