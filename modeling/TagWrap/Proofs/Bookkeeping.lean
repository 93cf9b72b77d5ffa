import Mathlib.Algebra.GroupWithZero.Nat
import Mathlib.Data.List.Induction
import Mathlib.Data.List.Infix
import TagWrap.Report.Reporter

/-!
# What a reporter keeps and says

A reporter counts as it goes along and keeps a record of each file. Whatever it is told, and in
whatever order, each event leaves one record (`tellAll_records`), and the counts are those of the
records (`Agrees.tellAll`): findings that are empty leave the same record and the same counts as a
file that is reported to be clean. A record has room for findings beside an error, but no event
leaves both.

What a reporter says about an event does not depend on what it was told before (`tellAll_output`).
It names what it is about: the file, and the findings, the number of them or the error
(`announced_said`). A report for programs is written at the end, from the records alone.
-/
namespace TagWrap

/-! ## Records and counts -/

namespace Summary

variable {record : FileRecord} {records : List FileRecord}

/-- The counts of records. -/
def ofRecords (records : List FileRecord) : Summary where
  filesProcessed := records.length
  filesWithViolations := records.countP fun record => !record.findings.isEmpty
  totalViolations := (records.map fun record => record.findings.length).sum
  errors := records.countP fun record => record.error.isSome

/-- The counts with one more record. -/
def count (summary : Summary) (record : FileRecord) : Summary where
  filesProcessed := summary.filesProcessed + 1
  filesWithViolations := summary.filesWithViolations + if record.findings.isEmpty then 0 else 1
  totalViolations := summary.totalViolations + record.findings.length
  errors := summary.errors + if record.error.isSome then 1 else 0

/-- A record that is added is counted. -/
theorem ofRecords_append_singleton :
    ofRecords (records ++ [record]) = (ofRecords records).count record := by
  simp [ofRecords, count, List.countP_append, List.countP_singleton]

/-- Something went wrong exactly when errors were counted. -/
theorem errors_pos_iff :
    0 < (ofRecords records).errors ↔ ∃ record ∈ records, record.error ≠ none := by
  simp [ofRecords, Option.isSome_iff_ne_none]

/-- There are findings exactly when files with violations were counted. -/
theorem filesWithViolations_pos_iff :
    0 < (ofRecords records).filesWithViolations ↔
      ∃ record ∈ records, record.findings ≠ [] := by
  simp [ofRecords]

end Summary

/-- What is written for a record has an error only where the record has one, and findings only where
    the record has some. -/
theorem FileRecord.toJson_members {record : FileRecord} {members : List (String × Json)}
    (written : record.toJson = .object members) :
    ("violations" ∈ members.map Prod.fst → record.findings ≠ []) ∧
      ("error" ∈ members.map Prod.fst → record.error ≠ none) := by
  obtain ⟨path, findings, error⟩ := record
  obtain rfl := Json.object.inj written
  cases findings <;> cases error <;> simp

namespace Reporter

namespace FileEvent

/-- The record of what a reporter is told about a file. -/
def record : FileEvent → FileRecord
  | check path findings _ _ => .success path findings
  | fix path findings => .success path findings
  | clean path => .success path []
  | error path message => .failure path message

/-- Whether an event is an error. -/
def isError : FileEvent → Bool
  | error _ _ => true
  | _ => false

/-- A record has an error exactly when it is that of one. -/
theorem record_error_iff {event : FileEvent} :
    event.record.error ≠ none ↔ event.isError = true := by
  cases event <;> simp [record, FileRecord.success, FileRecord.failure, isError]

/-- No event leaves a record with both findings and an error. -/
theorem findings_of_error {event : FileEvent} (failed : event.record.error ≠ none) :
    event.record.findings = [] := by
  cases event with
  | check path findings old new => exact absurd rfl failed
  | fix path findings => exact absurd rfl failed
  | clean path => rfl
  | error path message => rfl

end FileEvent

variable {reporter : Reporter} {event : FileEvent}

/-- To report a file as clean is to keep a record without findings and to count it. -/
theorem reportClean_books (reporter : Reporter) (path : Path) :
    (reporter.reportClean path).1.records = reporter.records ++ [.success path []] ∧
      (reporter.reportClean path).1.summary = reporter.summary.count (.success path []) :=
  ⟨rfl, rfl⟩

/-- To keep findings, of which there are some, is to keep their record and to count it. -/
theorem keepFindings_books {findings : List Finding} (found : findings ≠ []) (reporter : Reporter)
    (path : Path) :
    (reporter.keepFindings path findings).records =
        reporter.records ++ [.success path findings] ∧
      (reporter.keepFindings path findings).summary =
        reporter.summary.count (.success path findings) := by
  refine ⟨rfl, ?_⟩
  simp [keepFindings, keep, Summary.countViolations, Summary.count, FileRecord.success, found]

/-- Whatever a reporter is told, it keeps the record of that and counts it. -/
theorem tell_books (reporter : Reporter) (event : FileEvent) :
    (reporter.tell event).1.records = reporter.records ++ [event.record] ∧
      (reporter.tell event).1.summary = reporter.summary.count event.record := by
  cases event with
  -- Without findings a check and a fix take the way of a clean file.
  | check path findings old new =>
      rw [tell, reportCheck]
      cases findings with
      | nil => exact reportClean_books reporter path
      | cons finding others => exact keepFindings_books (List.cons_ne_nil _ _) reporter path
  | fix path findings =>
      rw [tell, reportFix]
      cases findings with
      | nil => exact reportClean_books reporter path
      | cons finding others => exact keepFindings_books (List.cons_ne_nil _ _) reporter path
  | clean path => exact reportClean_books reporter path
  | error path message => exact ⟨rfl, rfl⟩

/-- The counts of a reporter are those of its records. -/
def Agrees (reporter : Reporter) : Prop :=
  reporter.summary = .ofRecords reporter.records

/-- A reporter that was told nothing has counted nothing. -/
theorem agrees_start (format : ReportFormat) (verbose coloured : Bool) :
    (start format verbose coloured).Agrees :=
  rfl

/-- What a reporter is told keeps its counts and its records together. -/
theorem Agrees.tell (agrees : reporter.Agrees) (event : FileEvent) :
    (reporter.tell event).1.Agrees := by
  obtain ⟨kept, counted⟩ := tell_books reporter event
  rw [Agrees, kept, counted, Summary.ofRecords_append_singleton, agrees]

/-- A reporter that is told events is told all but the last of them, and then that one. -/
theorem tellAll_append_singleton (reporter : Reporter) (events : List FileEvent)
    (event : FileEvent) :
    reporter.tellAll (events ++ [event]) =
      (((reporter.tellAll events).1.tell event).1,
        (reporter.tellAll events).2 ++ ((reporter.tellAll events).1.tell event).2) := by
  rw [tellAll, tellAll, List.foldl_append]
  rfl

/-- Each event leaves its record, in order. The induction is on the events from the back, where
    the last one is told. -/
theorem tellAll_records (reporter : Reporter) (events : List FileEvent) :
    (reporter.tellAll events).1.records = reporter.records ++ events.map FileEvent.record := by
  induction events using List.reverseRecOn with
  | nil => exact (List.append_nil _).symm
  | append_singleton events event inductionHypothesis =>
      rw [tellAll_append_singleton, (tell_books _ event).1, inductionHypothesis]
      simp

/-- Whatever a reporter is told in whatever order keeps its counts and its records together. -/
theorem Agrees.tellAll (agrees : reporter.Agrees) (events : List FileEvent) :
    (reporter.tellAll events).1.Agrees := by
  induction events using List.reverseRecOn with
  | nil => exact agrees
  | append_singleton events event inductionHypothesis =>
      rw [tellAll_append_singleton]
      exact inductionHypothesis.tell event

end Reporter

/-! ## Outputs -/

namespace Output

variable {first second : Output} {part : Text}

theorem append_assoc (first second third : Output) :
    first ++ second ++ third = first ++ (second ++ third) := by
  change Output.mk _ _ = Output.mk _ _
  rw [mk.injEq]
  exact ⟨List.append_assoc _ _ _, List.append_assoc _ _ _⟩

theorem append_empty (output : Output) : output ++ empty = output := by
  change Output.mk _ _ = output
  rw [empty, List.append_nil, List.append_nil]

/-- The last of several outputs stands at the end. -/
theorem concat_append_singleton (outputs : List Output) (output : Output) :
    concat (outputs ++ [output]) = concat outputs ++ output := by
  induction outputs with
  | nil => exact append_empty output
  | cons first outputs inductionHypothesis =>
      change first ++ concat (outputs ++ [output]) = first ++ concat outputs ++ output
      rw [inductionHypothesis, append_assoc]

/-- A text is part of what is written to the first stream. -/
def Shows (output : Output) (part : Text) : Prop := part <:+: output.stdout

/-- A text is part of what is written to the second stream. -/
def Warns (output : Output) (part : Text) : Prop := part <:+: output.stderr

theorem Shows.append_right (shows : first.Shows part) (second : Output) :
    (first ++ second).Shows part :=
  shows.trans (List.prefix_append _ _).isInfix

theorem Shows.append_left (shows : second.Shows part) (first : Output) :
    (first ++ second).Shows part :=
  shows.trans (List.suffix_append _ _).isInfix

/-- A line shows what is part of it. -/
theorem shows_line {text : Text} (inside : part <:+: text) : (line text).Shows part :=
  inside.trans (List.prefix_append _ _).isInfix

/-- Outputs show what one of them shows. -/
theorem Shows.concat {outputs : List Output} {output : Output} (shows : output.Shows part)
    (listed : output ∈ outputs) : (Output.concat outputs).Shows part := by
  induction listed with
  | head others => exact shows.append_right _
  | tail first _ inductionHypothesis => exact inductionHypothesis.append_left first

end Output

namespace Reporter

variable {format : ReportFormat} {verbose coloured : Bool} {path : Path} {findings : List Finding}

/-- What a reporter says at once about an event. -/
def said (format : ReportFormat) (verbose coloured : Bool) (event : FileEvent) : Output :=
  ((start format verbose coloured).tell event).2

/-- What is said about an event does not depend on what the reporter was told before. -/
theorem tell_output (reporter : Reporter) (event : FileEvent) :
    (reporter.tell event).2 =
      said reporter.format reporter.verbose reporter.coloured event := by
  cases event with
  | check path findings old new => cases findings <;> rfl
  | fix path findings => cases findings <;> rfl
  | clean path => rfl
  | error path message => rfl

/-- A reporter goes on in the way in which it was asked to report. -/
theorem tell_style (reporter : Reporter) (event : FileEvent) :
    (reporter.tell event).1.format = reporter.format ∧
      (reporter.tell event).1.verbose = reporter.verbose ∧
      (reporter.tell event).1.coloured = reporter.coloured := by
  cases event with
  | check path findings old new => cases findings <;> exact ⟨rfl, rfl, rfl⟩
  | fix path findings => cases findings <;> exact ⟨rfl, rfl, rfl⟩
  | clean path => exact ⟨rfl, rfl, rfl⟩
  | error path message => exact ⟨rfl, rfl, rfl⟩

/-- A reporter that is told events goes on in the way in which it was asked to report. -/
theorem tellAll_style (reporter : Reporter) (events : List FileEvent) :
    (reporter.tellAll events).1.format = reporter.format ∧
      (reporter.tellAll events).1.verbose = reporter.verbose ∧
      (reporter.tellAll events).1.coloured = reporter.coloured := by
  induction events using List.reverseRecOn with
  | nil => exact ⟨rfl, rfl, rfl⟩
  | append_singleton events event inductionHypothesis =>
      obtain ⟨format, verbose, coloured⟩ := inductionHypothesis
      rw [tellAll_append_singleton]
      obtain ⟨format', verbose', coloured'⟩ := tell_style (reporter.tellAll events).1 event
      exact ⟨format'.trans format, verbose'.trans verbose, coloured'.trans coloured⟩

/-- Something is said about each event, in order. -/
theorem tellAll_output (reporter : Reporter) (events : List FileEvent) :
    (reporter.tellAll events).2 = .concat
      (events.map (said reporter.format reporter.verbose reporter.coloured)) := by
  induction events using List.reverseRecOn with
  | nil => rfl
  | append_singleton events event inductionHypothesis =>
      obtain ⟨format, verbose, coloured⟩ := tellAll_style reporter events
      rw [tellAll_append_singleton, inductionHypothesis, tell_output, format, verbose, coloured,
        List.map_append, List.map_singleton, Output.concat_append_singleton]

/-- An output announces an event. For people it names the file with its findings, with the number of
    findings that were mended, or with the error, and a patch has the diff of the file. What has no
    findings is passed over, unless the report is verbose, and a report for programs says nothing
    before its end. -/
def FileEvent.Announced (format : ReportFormat) (verbose coloured : Bool) (output : Output) :
    FileEvent → Prop
  | check path findings old new => findings ≠ [] →
      match format with
      | .text =>
          output.Shows (Style.bold.paint coloured path.text) ∧
            ∀ finding ∈ findings, output.Shows finding.message.toList
      | .diff => output = .text (Diff.unified (toString path) old new)
      | .json => True
  | fix path findings => findings ≠ [] → format = .text →
      output.Shows (Style.bold.paint coloured path.text) ∧
        output.Shows s!" Moved {findings.length} prop(s) to new lines".toList
  | clean path => verbose = true → format = .text → output.Shows path.text
  | error path message => format = .text → output.Warns s!": {path} - {message}".toList

/-- The text of a path that is styled is the path in that style. -/
theorem styled_path (reporter : Reporter) (path : Path) :
    reporter.styled .bold (toString path) = Style.bold.paint reporter.coloured path.text := by
  change Style.bold.paint _ (String.ofList path.text).toList = _
  rw [String.toList_ofList]

/-- The line of a path shows it. -/
theorem shows_path (reporter : Reporter) (path : Path) :
    (Output.line (reporter.styled .bold (toString path))).Shows
      (Style.bold.paint reporter.coloured path.text) := by
  rw [styled_path]
  exact Output.shows_line (List.infix_refl _)

/-- The line for a finding shows its message. -/
theorem shows_findingLine (reporter : Reporter) (finding : Finding) :
    (reporter.findingLine finding).Shows finding.message.toList := by
  apply Output.shows_line
  exact (List.suffix_cons _ _).isInfix.trans (List.suffix_append _ _).isInfix

/-- What is said about an event announces it. -/
theorem announced_said (format : ReportFormat) (verbose coloured : Bool) (event : FileEvent) :
    event.Announced format verbose coloured (said format verbose coloured event) := by
  let reporter := start format verbose coloured
  have named (path : Path) := shows_path reporter path
  cases event with
  | check path findings old new =>
      intro found
      obtain ⟨first, others, rfl⟩ := List.exists_cons_of_ne_nil found
      cases format with
      | text =>
          let lines := (first :: others).map reporter.findingLine
          let front := Output.line (reporter.styled .bold (toString path)) ++ .concat lines
          have shown : said .text verbose coloured (.check path (first :: others) old new) =
              front ++ .line [] ++ reporter.changedLines old new ++ .line [] := rfl
          have behind {part : Text} (shows : front.Shows part) :
              (front ++ .line [] ++ reporter.changedLines old new ++ .line []).Shows part :=
            ((shows.append_right _).append_right _).append_right _
          rw [shown]
          constructor
          · exact behind ((named path).append_right _)
          · intro finding listed
            have line : reporter.findingLine finding ∈ lines := List.mem_map_of_mem listed
            have message := (shows_findingLine reporter finding).concat line
            exact behind (message.append_left _)
      | json => trivial
      | diff => rfl
  | fix path findings =>
      rintro found rfl
      obtain ⟨first, others, rfl⟩ := List.exists_cons_of_ne_nil found
      let moved := s!" Moved {(first :: others).length} prop(s) to new lines".toList
      have shown : said .text verbose coloured (.fix path (first :: others)) =
          .line (reporter.styled .bold (toString path)) ++
            .line (' ' :: ' ' :: reporter.styled .green "OK" ++ moved) ++ .line [] := rfl
      have count : (Output.line (' ' :: ' ' :: reporter.styled .green "OK" ++ moved)).Shows moved :=
        Output.shows_line (List.suffix_append _ _).isInfix
      rw [shown]
      exact ⟨((named path).append_right _).append_right _, (count.append_left _).append_right _⟩
  | clean path =>
      rintro rfl rfl
      exact Output.shows_line (List.prefix_append _ _).isInfix
  | error path message =>
      rintro rfl
      exact (List.suffix_append _ _).isInfix.trans (List.prefix_append _ _).isInfix

/-- What a report for programs is, as a value: the counts of the records, and the records. -/
def document (records : List FileRecord) : Json :=
  .object [("version", .string version), ("summary", (Summary.ofRecords records).toJson),
    ("files", .array (records.map FileRecord.toJson))]

/-- A report for programs is written at the end, from the records. -/
theorem finish_eq_document {reporter : Reporter} (agrees : reporter.Agrees)
    (programs : reporter.format = .json) (checking : Bool) :
    reporter.finish checking = .line (Json.pretty 0 (document reporter.records)) := by
  rw [finish, programs, toJson, agrees]
  rfl

end Reporter

end TagWrap
