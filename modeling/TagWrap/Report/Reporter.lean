import TagWrap.Diff.Hunk
import TagWrap.Inspection
import TagWrap.Json.Writer
import TagWrap.Report.Format
import TagWrap.Report.Output

/-!
# Reporting

A reporter is told of one file after the other. It keeps what it was told and counts as
it goes along, writes what can be written at once, and writes the rest at the end. The
counts are kept apart from the records, since they are asked for before the end.
-/
namespace TagWrap

/-- What is kept of a file: its findings, and the error if something went wrong. -/
structure FileRecord where
  path : Path
  findings : List Finding
  error : Option String
deriving DecidableEq, Repr

namespace FileRecord

/-- The record of a file that was inspected, with these findings. -/
def success (path : Path) (findings : List Finding) : FileRecord := ⟨path, findings, none⟩

/-- The record of a file that something went wrong with. -/
def failure (path : Path) (message : String) : FileRecord := ⟨path, [], some message⟩

end FileRecord

/-- The counts of a run. -/
structure Summary where
  filesProcessed : Nat
  filesWithViolations : Nat
  totalViolations : Nat
  errors : Nat
deriving DecidableEq, Repr

/-- What a reporter was asked for, and what it was told so far. -/
structure Reporter where
  format : ReportFormat
  /-- Whether files without findings are worth a line. -/
  verbose : Bool
  coloured : Bool
  summary : Summary
  /-- The files in the order in which they were reported. -/
  records : List FileRecord
deriving DecidableEq, Repr

namespace Summary

/-- The counts before any file. -/
def zero : Summary := ⟨0, 0, 0, 0⟩

/-- Count a file with so many violations, of which there is at least one. -/
def countViolations (summary : Summary) (count : Nat) : Summary :=
  { summary with
    filesProcessed := summary.filesProcessed + 1
    filesWithViolations := summary.filesWithViolations + 1
    totalViolations := summary.totalViolations + count }

/-- Count a file without violations. -/
def countClean (summary : Summary) : Summary :=
  { summary with filesProcessed := summary.filesProcessed + 1 }

/-- Count a file that something went wrong with. -/
def countError (summary : Summary) : Summary :=
  { summary with filesProcessed := summary.filesProcessed + 1, errors := summary.errors + 1 }

/-- The counts as a value. -/
def toJson (summary : Summary) : Json :=
  .object [("files_processed", .int summary.filesProcessed),
    ("files_with_violations", .int summary.filesWithViolations),
    ("total_violations", .int summary.totalViolations), ("errors", .int summary.errors)]

end Summary

/-- A finding as a value. -/
def Finding.toJson (finding : Finding) : Json :=
  .object [("rule", .string finding.rule), ("prop", .string (String.ofList finding.prop)),
    ("line", .int finding.line), ("column", .int finding.column),
    ("message", .string finding.message)]

/-- A record as a value. Findings and errors are left out where there are none. -/
def FileRecord.toJson (record : FileRecord) : Json :=
  let findings :=
    if record.findings.isEmpty then []
    else [("violations", Json.array (record.findings.map Finding.toJson))]
  let error := match record.error with
    | none => []
    | some message => [("error", Json.string message)]
  .object (("path", .string (toString record.path)) :: (findings ++ error))

namespace Reporter

/-- A reporter that was told nothing yet. -/
def start (format : ReportFormat) (verbose coloured : Bool) : Reporter :=
  ⟨format, verbose, coloured, .zero, []⟩

/-- Keep a record. -/
def keep (reporter : Reporter) (record : FileRecord) : Reporter :=
  { reporter with records := reporter.records ++ [record] }

/-- The text of a string in a style. -/
def styled (reporter : Reporter) (style : Style) (string : String) : Text :=
  style.paint reporter.coloured string.toList

/-- The line for a finding. -/
def findingLine (reporter : Reporter) (finding : Finding) : Output :=
  .line (s!"  {finding.line}:{finding.column} ".toList ++ reporter.styled .green "->" ++
    ' ' :: finding.message.toList)

/-- The lines that differ between two texts, without the lines around them. -/
def changedLines (reporter : Reporter) (old new : Text) : Output :=
  .concat ((Diff.allLines old new).map fun (mark, line) =>
    let shown := Diff.withoutEnd line
    match mark with
    | .kept => .empty
    | .deleted => .line (' ' :: ' ' :: Style.red.paint reporter.coloured ('-' :: ' ' :: shown))
    | .inserted => .line (' ' :: ' ' :: Style.green.paint reporter.coloured ('+' :: ' ' :: shown)))

/-- Report a file that needed no changes. -/
def reportClean (reporter : Reporter) (path : Path) : Reporter × Output :=
  let output :=
    if reporter.verbose ∧ reporter.format = .text then
      Output.line (path.text ++ ": No changes needed".toList)
    else .empty
  ({ reporter with summary := reporter.summary.countClean }.keep (.success path []), output)

/-- The reporter that has counted and kept the findings in a file. -/
def keepFindings (reporter : Reporter) (path : Path) (findings : List Finding) : Reporter :=
  { reporter with summary := reporter.summary.countViolations findings.length }.keep
    (.success path findings)

/-- Report the findings in a file and the changes that would mend them. -/
def reportCheck (reporter : Reporter) (path : Path) (findings : List Finding) (old new : Text) :
    Reporter × Output :=
  if findings.isEmpty then reporter.reportClean path
  else
    let output := match reporter.format with
      | .text =>
          Output.line (reporter.styled .bold (toString path)) ++
            Output.concat (findings.map reporter.findingLine) ++ Output.line [] ++
            reporter.changedLines old new ++ Output.line []
      | .diff => Output.text (Diff.unified (toString path) old new)
      | .json => .empty
    (reporter.keepFindings path findings, output)

/-- Report the findings in a file that were mended. -/
def reportFix (reporter : Reporter) (path : Path) (findings : List Finding) : Reporter × Output :=
  if findings.isEmpty then reporter.reportClean path
  else
    let output := match reporter.format with
      | .text =>
          Output.line (reporter.styled .bold (toString path)) ++
            Output.line (' ' :: ' ' :: reporter.styled .green "OK" ++
              s!" Moved {findings.length} prop(s) to new lines".toList) ++
            Output.line []
      | _ => .empty
    (reporter.keepFindings path findings, output)

/-- Report a file that something went wrong with. -/
def reportError (reporter : Reporter) (path : Path) (message : String) : Reporter × Output :=
  let output := match reporter.format with
    | .text =>
        Output.warning (reporter.styled .yellow "Warning" ++ s!": {path} - {message}".toList)
    | _ => .empty
  ({ reporter with summary := reporter.summary.countError }.keep (.failure path message), output)

/-- What a reporter can be told about a file. -/
inductive FileEvent where
  /-- These findings would be mended by this change of the text. -/
  | check (path : Path) (findings : List Finding) (old new : Text)
  | fix (path : Path) (findings : List Finding)
  | clean (path : Path)
  | error (path : Path) (message : String)
deriving DecidableEq, Repr

/-- Tell a reporter about a file. -/
def tell (reporter : Reporter) : FileEvent → Reporter × Output
  | .check path findings old new => reporter.reportCheck path findings old new
  | .fix path findings => reporter.reportFix path findings
  | .clean path => reporter.reportClean path
  | .error path message => reporter.reportError path message

/-- Tell a reporter about files in order. -/
def tellAll (reporter : Reporter) (events : List FileEvent) : Reporter × Output :=
  events.foldl
    (fun state event =>
      let (reporter, output) := state.1.tell event
      (reporter, state.2 ++ output))
    (reporter, .empty)

/-- The version that reports name. -/
def version : String := "0.1.0"

/-- All that the reporter was told, as a value. -/
def toJson (reporter : Reporter) : Json :=
  .object [("version", .string version), ("summary", reporter.summary.toJson),
    ("files", .array (reporter.records.map FileRecord.toJson))]

/-- The counts for people. Errors are passed over in silence where there are none. -/
def summaryLines (reporter : Reporter) (checking : Bool) : Output :=
  let summary := reporter.summary
  Output.line (reporter.styled .heading "Summary") ++
    Output.line s!"  Files processed: {summary.filesProcessed}".toList ++
    Output.line s!"  Files with violations: {summary.filesWithViolations}".toList ++
    Output.line s!"  Total violations: {summary.totalViolations}".toList ++
    (if 0 < summary.errors then Output.line s!"  Errors: {summary.errors}".toList else .empty) ++
    (if checking ∧ 0 < summary.totalViolations then
      Output.line [] ++ Output.line (reporter.styled .yellow "Run with --fix to apply changes")
    else .empty)

/-- What is written at the end. -/
def finish (reporter : Reporter) (checking : Bool) : Output :=
  match reporter.format with
  | .text => reporter.summaryLines checking
  | .json => .line (Json.pretty 0 reporter.toJson)
  | .diff => .empty

end Reporter

end TagWrap
