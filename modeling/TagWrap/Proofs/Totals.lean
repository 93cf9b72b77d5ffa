import TagWrap.Proofs.Effects

/-!
# Totals and exit codes

The counts of a reporter are those of its records, and the exit code of a run is read off the
counts. So it says whether a dump failed, and if none did, whether a run that only checks has found
anything. A dump whose source cannot be written fails in a run that fixes.
-/
namespace TagWrap

/-- An exit code says whether something failed, and if nothing did, whether something is amiss. -/
structure Signals (code : Nat) (failed amiss : Prop) : Prop where
  one : code = 1 ↔ failed
  two : code = 2 ↔ ¬ failed ∧ amiss
  zero : code = 0 ↔ ¬ failed ∧ ¬ amiss

namespace Run

variable {tree : FileTree} {working : Location} {coloured : Bool} {arguments : List Text}
  {line : CommandLine} {setup : Setup} {path : Path}

/-- The exit code for the counts of records says what the records say. -/
theorem exitCode_signals (records : List FileRecord) (fixing : Bool) :
    Signals (exitCode (.ofRecords records) fixing)
      (∃ record ∈ records, record.error ≠ none)
      (fixing = false ∧ ∃ record ∈ records, record.findings ≠ []) := by
  rw [← Summary.errors_pos_iff, ← Summary.filesWithViolations_pos_iff]
  by_cases failed : 0 < (Summary.ofRecords records).errors
  · have code : exitCode (.ofRecords records) fixing = 1 := if_pos failed
    constructor <;> simp [code, failed]
  · by_cases amiss : fixing = false ∧ 0 < (Summary.ofRecords records).filesWithViolations
    · obtain ⟨rfl, found⟩ := amiss
      have code : exitCode (.ofRecords records) false = 2 := by simp [exitCode, failed, found]
      constructor <;> simp [code, failed, found]
    · have code : exitCode (.ofRecords records) fixing = 0 := by
        rw [exitCode, if_neg failed, if_neg]
        simpa using amiss
      constructor <;> simp [code, failed, amiss]

/-- A dump has findings. -/
def Finds (tree : FileTree) (working : Location) (setup : Setup) (path : Path) : Prop :=
  ∃ inspection, Inspection.ofDump tree working setup.rule setup.lineEnding path = .ok inspection ∧
    inspection.findings ≠ []

/-- A run that does not fix records findings for a dump exactly when it has them. -/
theorem report_findings_iff (checking : line.fix = false) :
    (report tree working line setup path).record.findings ≠ [] ↔
      Finds tree working setup path := by
  rw [report, Finds, Result.event, inspect, Result.settle, checking]
  cases inspected : Inspection.ofDump tree working setup.rule setup.lineEnding path with
  | error error => simp [Reporter.FileEvent.record, FileRecord.failure]
  | ok inspection =>
      have found := newSource_eq_none_iff inspected
      cases mended : inspection.newSource with
      | none => simp [mended, found.mp mended, Reporter.FileEvent.record, FileRecord.success]
      | some newSource => simp [mended, Reporter.FileEvent.record, FileRecord.success]

/-- Some record of a run is of a kind exactly when the record of a collected dump is. -/
theorem exists_record_iff (kind : FileRecord → Prop) :
    (∃ record ∈ (reports tree working line setup).map Reporter.FileEvent.record, kind record) ↔
      ∃ path ∈ collected tree working line setup,
        kind (report tree working line setup path).record := by
  constructor
  · rintro ⟨_, listed, isKind⟩
    obtain ⟨event, told, rfl⟩ := List.mem_map.mp listed
    obtain ⟨path, member, rfl⟩ := List.mem_map.mp (reports_perm.mem_iff.mp told)
    exact ⟨path, member, isKind⟩
  · rintro ⟨path, member, isKind⟩
    have told := reports_perm.mem_iff.mpr
      (List.mem_map_of_mem (f := report tree working line setup) member)
    exact ⟨_, List.mem_map_of_mem told, isKind⟩

end Run

open Run Reporter

/-- Totals agree with the records, and the exit code with both.

    A fresh reporter that was told any events in any order has one record for each of them, counts
    that are those of its records, and no record with both findings and an error, in what it keeps
    as in what it writes. The exit code for such counts is one if there is a record with an error,
    and otherwise two if there are findings and the run does not fix. So the exit code of a run that
    gets as far as looking for dumps is one if a collected dump fails, and otherwise two if the run
    does not fix and a collected dump has findings, and otherwise zero. -/
theorem totals_agree (coloured : Bool) :
    (∀ format verbose events,
      let told := ((start format verbose coloured).tellAll events).1
      told.records = events.map FileEvent.record ∧ told.summary = .ofRecords told.records ∧
        (∀ record ∈ told.records,
          ¬ (record.error ≠ none ∧ record.findings ≠ []) ∧
          ∀ members, record.toJson = .object members →
            ¬ ("violations" ∈ members.map Prod.fst ∧ "error" ∈ members.map Prod.fst)) ∧
        ∀ fixing, Signals (exitCode told.summary fixing)
          (∃ record ∈ told.records, record.error ≠ none)
          (fixing = false ∧ ∃ record ∈ told.records, record.findings ≠ [])) ∧
    ∀ tree working arguments line setup, Starts tree working arguments line setup →
      Signals (Run.ofArguments tree working coloured arguments).exitCode
        (∃ path ∈ collected tree working line setup, Fails tree working line setup path)
        (line.fix = false ∧
          ∃ path ∈ collected tree working line setup, Finds tree working setup path) := by
  constructor
  · intro format verbose events told
    have records : told.records = events.map FileEvent.record := tellAll_records _ events
    have agrees : told.Agrees := (agrees_start format verbose coloured).tellAll events
    refine ⟨records, agrees, ?_, ?_⟩
    · intro record listed
      have apart : ¬ (record.error ≠ none ∧ record.findings ≠ []) := by
        rw [records] at listed
        obtain ⟨event, -, rfl⟩ := List.mem_map.mp listed
        rintro ⟨failed, found⟩
        exact found (FileEvent.findings_of_error failed)
      refine ⟨apart, ?_⟩
      rintro members written ⟨violations, error⟩
      obtain ⟨findings_written, error_written⟩ := FileRecord.toJson_members written
      exact apart ⟨error_written error, findings_written violations⟩
    · intro fixing
      rw [agrees]
      exact exitCode_signals told.records fixing
  · intro tree working arguments line setup starts
    have agrees := (agrees_start setup.format line.verbose coloured).tellAll
      (reports tree working line setup)
    have records := tellAll_records (start setup.format line.verbose coloured)
      (reports tree working line setup)
    have code : (Run.ofArguments tree working coloured arguments).exitCode =
        (withSetup tree working coloured line setup).exitCode := by
      rw [Run.ofArguments, starts.parsed]
      simp only [Run.ofCommandLine, starts.ready]
    rw [code, exitCode_withSetup, agrees, records]
    have failed : (∃ record ∈ (reports tree working line setup).map FileEvent.record,
        record.error ≠ none) ↔
          ∃ path ∈ collected tree working line setup, Fails tree working line setup path := by
      rw [exists_record_iff fun record => record.error ≠ none]
      simp only [FileEvent.record_error_iff, report_isError_iff]
    have amiss : (line.fix = false ∧
        ∃ record ∈ (reports tree working line setup).map FileEvent.record, record.findings ≠ []) ↔
          line.fix = false ∧
            ∃ path ∈ collected tree working line setup, Finds tree working setup path := by
      apply and_congr_right
      intro checking
      rw [exists_record_iff fun record => record.findings ≠ []]
      simp only [report_findings_iff checking]
    have signals := exitCode_signals
      ((reports tree working line setup).map FileEvent.record) line.fix
    rw [failed, amiss] at signals
    exact signals

/-- The arguments to check two dumps. -/
def checkBoth : List Text := ["a.props.json".toList, "b.props.json".toList]

/-- What they come to. -/
def checkBothLine : CommandLine := { fixBothLine with fix := false }

/-- What a check finds in the second tag. -/
def secondTagInspection : Inspection where
  sourcePath := ⟨"App.jsx".toList⟩
  findings := [⟨Rule.name, ['f'], 2, 6, "Prop `f` must be placed on a new line"⟩]
  oldSource := "<A b c/>\n<D e f/>\n".toList
  newSource := some "<A b c/>\n<D e\n   f/>\n".toList

/-- Two dumps of one source, which cannot be written. -/
def guardedDumps : FileTree :=
  { twoDumps firstTagDump secondTagDump with
    guards := [(["App.jsx".toList], .refused "Permission denied" 13)] }

/-- A dump with findings decides on the exit code of a check, unless another dump fails. A run that
    fixes fails where it cannot write. -/
theorem totals_agree_second_tag :
    (Run.ofArguments (twoDumps "[" secondTagDump) [] false checkBoth).exitCode = 1 ∧
      (Run.ofArguments (twoDumps firstTagDump secondTagDump) [] false checkBoth).exitCode = 2 ∧
      (Run.ofArguments guardedDumps [] false fixBoth).exitCode = 1 := by
  have broken : Starts (twoDumps "[" secondTagDump) [] checkBoth checkBothLine plainSetup :=
    ⟨by decide +kernel, by decide +kernel⟩
  have whole : Starts (twoDumps firstTagDump secondTagDump) [] checkBoth checkBothLine
      plainSetup := ⟨by decide +kernel, by decide +kernel⟩
  have guarded : Starts guardedDumps [] fixBoth fixBothLine plainSetup :=
    ⟨parse_fixBoth, by decide +kernel⟩
  refine ⟨?_, ?_, ?_⟩
  · apply ((totals_agree false).2 _ _ _ _ _ broken).one.mpr
    exact ⟨⟨"a.props.json".toList⟩, by decide +kernel, by decide +kernel⟩
  · apply ((totals_agree false).2 _ _ _ _ _ whole).two.mpr
    constructor
    · decide +kernel
    · exact ⟨rfl, ⟨"b.props.json".toList⟩, by decide +kernel, secondTagInspection,
        by decide +kernel, by decide⟩
  · apply ((totals_agree false).2 _ _ _ _ _ guarded).one.mpr
    exact ⟨⟨"a.props.json".toList⟩, by decide +kernel, by decide +kernel⟩

end TagWrap
