import TagWrap.Proofs.ReportOrder

/-!
# What a run changes

A run that is not asked to fix leaves the tree as it was. A run that fixes changes nothing but the
sources of dumps that it could use and that have findings, where these can be written. What such a
source holds afterwards comes from the edits of one such dump, made in what the source held before.

Dumps that fail, for whatever reason, have no part in this: a run with them leaves the tree that it
leaves without them, and what it says about the other dumps stays the same. All of this rests on
the order of things in a run, which reads everything before it writes anything, and on the fact that
a write that is refused changes nothing.
-/
namespace TagWrap

/-- An inspection has a new source exactly when it has findings. -/
theorem Inspection.newSource_eq_none_iff {config : RuleConfig} {lineEnding : Option LineEnding}
    {sourcePath : Path} {source : Text} {elements : List Element} {inspection : Inspection}
    (inspected : ofElements config lineEnding sourcePath source elements = .ok inspection) :
    inspection.newSource = none ↔ inspection.findings = [] := by
  simp only [ofElements] at inspected
  split at inspected
  · obtain rfl := Except.ok.inj inspected
    simp
  next violated =>
    simp only [bind_eq_ok] at inspected
    obtain ⟨fixed, -, same⟩ := inspected
    obtain rfl := Except.ok.inj same
    simpa using violated

namespace Run

variable {tree : FileTree} {working location : Location} {coloured coloured' : Bool}
  {arguments arguments' : List Text} {line line' : CommandLine} {setup setup' : Setup}
  {path : Path}

/-- Arguments ask for a run, and it gets as far as looking for dumps. -/
structure Starts (tree : FileTree) (working : Location) (arguments : List Text)
    (line : CommandLine) (setup : Setup) : Prop where
  parsed : CommandLine.parse arguments = .ok (.run line)
  ready : Setup.ofCommandLine tree working line = .ok setup

/-- The dumps that the paths of a command line lead to, in the order in which they are found. -/
def collected (tree : FileTree) (working : Location) (line : CommandLine) (setup : Setup) :
    List Path :=
  (line.paths.map (find tree working setup.config)).flatMap Found.dumpPaths

/-- The dump at a path can be used, has findings, and names the file at a location, which can be
    written. -/
def Mends (tree : FileTree) (working : Location) (setup : Setup) (path : Path)
    (location : Location) : Prop :=
  ∃ inspection, Inspection.ofDump tree working setup.rule setup.lineEnding path = .ok inspection ∧
    inspection.findings ≠ [] ∧ tree.openFile working inspection.sourcePath = .ok location

/-- What a location may hold after a run that fixes: what it held, if no collected dump mends it, or
    else what the edits of one collected dump that mends it make of what it held. -/
def Justified (tree : FileTree) (working : Location) (line : CommandLine) (setup : Setup)
    (location : Location) (after : Option Entry) : Prop :=
  (¬ ∃ path ∈ collected tree working line setup, Mends tree working setup path location) ∧
      after = tree.entry? location ∨
    ∃ path ∈ collected tree working line setup, Mends tree working setup path location ∧
      ∃ source fixed, tree.entry? location = some (.file (.text source)) ∧
        Edit.applyAll source (plannedEdits tree working setup path) = .ok fixed ∧
        after = some (.file (.text fixed))

/-- The dump at a path fails. It cannot be read, understood or checked, or its edits cannot be made,
    or the run fixes and the source of the dump has findings and cannot be written. -/
def Fails (tree : FileTree) (working : Location) (line : CommandLine) (setup : Setup)
    (path : Path) : Prop :=
  (∃ error, Inspection.ofDump tree working setup.rule setup.lineEnding path = .error error) ∨
    line.fix = true ∧ ∃ inspection reason,
      Inspection.ofDump tree working setup.rule setup.lineEnding path = .ok inspection ∧
        inspection.findings ≠ [] ∧
        tree.openFile working inspection.sourcePath = .error reason

/-- What is told about the dump at a path when it is the only one. -/
def report (tree : FileTree) (working : Location) (line : CommandLine) (setup : Setup)
    (path : Path) : Reporter.FileEvent :=
  (inspect tree working setup path).event tree working line.fix

/-- What a run tells about the dumps that do not fail, in order. -/
def soundReports (tree : FileTree) (working : Location) (line : CommandLine) (setup : Setup) :
    List Reporter.FileEvent :=
  (reports tree working line setup).filter fun event => !event.isError

/-! ## Single dumps -/

/-- A dump that can be used has a new source exactly when it has findings. -/
theorem newSource_eq_none_iff {inspection : Inspection}
    (inspected : Inspection.ofDump tree working setup.rule setup.lineEnding path = .ok inspection) :
    inspection.newSource = none ↔ inspection.findings = [] := by
  simp only [Inspection.ofDump, bind_eq_ok] at inspected
  obtain ⟨loaded, -, elements, -, checked⟩ := inspected
  exact Inspection.newSource_eq_none_iff checked

/-- A dump mends a file when its result is told as a fix of that file. -/
theorem mends_iff_isFixOf : Mends tree working setup path location ↔
    (inspect tree working setup path).isFixOf tree working location = true := by
  rw [Result.isFixOf_iff, Mends, inspect]
  simp only [Result.Lands, Result.mended?]
  cases inspected : Inspection.ofDump tree working setup.rule setup.lineEnding path with
  | error error => simp
  | ok inspection =>
      have found := newSource_eq_none_iff inspected
      cases mended : inspection.newSource with
      | none => simp [found.mp mended, mended]
      | some newSource =>
          have some_findings : inspection.findings ≠ [] := found.not.mp (by simp [mended])
          simp [some_findings, mended]

/-- A dump fails exactly when an error is told about it. -/
theorem report_isError_iff :
    (report tree working line setup path).isError = true ↔ Fails tree working line setup path := by
  rw [report, Fails, Result.event, inspect, Result.settle]
  cases inspected : Inspection.ofDump tree working setup.rule setup.lineEnding path with
  | error error => simp [Reporter.FileEvent.isError]
  | ok inspection =>
      have found := newSource_eq_none_iff inspected
      cases mended : inspection.newSource with
      | none => simp [found.mp mended, mended, Reporter.FileEvent.isError]
      | some newSource =>
          have some_findings : inspection.findings ≠ [] := found.not.mp (by simp [mended])
          cases line.fix with
          | false => simp [mended, Reporter.FileEvent.isError]
          | true =>
              cases opened : tree.openFile working inspection.sourcePath with
              | error reason =>
                  simp [mended, some_findings, opened, FileTree.write_of_refused opened,
                    Reporter.FileEvent.isError]
              | ok place =>
                  simp [mended, opened, FileTree.write_of_opened opened,
                    Reporter.FileEvent.isError]

instance (path : Path) : Decidable (Fails tree working line setup path) :=
  decidable_of_iff _ report_isError_iff

/-! ## Reports -/

/-- The results of a run are those of the dumps that it collects. -/
theorem results_perm : (results tree working line setup).Perm
    ((collected tree working line setup).map (inspect tree working setup)) :=
  List.mergeSort_perm _ _

/-- About each result the same is told as if its dump were the only one. -/
theorem reports_eq : reports tree working line setup =
    (results tree working line setup).map fun result => result.event tree working line.fix :=
  settleAll_events tree working line.fix _

/-- A run reports each dump that it collects. -/
theorem reports_perm : (reports tree working line setup).Perm
    ((collected tree working line setup).map (report tree working line setup)) := by
  have told : (collected tree working line setup).map (report tree working line setup) =
      ((collected tree working line setup).map (inspect tree working setup)).map
        fun result => result.event tree working line.fix := by
    rw [List.map_map]
    rfl
  rw [told, reports_eq]
  exact results_perm.map _

/-- A collected dump mends a file exactly when a run that fixes reports a fix of that file for
    it. -/
theorem inspect_mem_reportedFixes_iff (fixing : line.fix = true) :
    inspect tree working setup path ∈ reportedFixes tree working location line setup ↔
      path ∈ collected tree working line setup ∧ Mends tree working setup path location := by
  rw [reportedFixes_eq fixing, List.mem_filter, ← mends_iff_isFixOf, results_perm.mem_iff,
    List.mem_map]
  constructor
  · rintro ⟨⟨path', member, same⟩, mends⟩
    obtain rfl : path' = path := congrArg Result.dump same
    exact ⟨member, mends⟩
  · rintro ⟨member, mends⟩
    exact ⟨⟨path, member, rfl⟩, mends⟩

/-- What a run that fixes leaves at a location. -/
theorem entry?_of_fixing (starts : Starts tree working arguments line setup)
    (fixing : line.fix = true) (location : Location) :
    Justified tree working line setup location
      (FileTree.entry? (Run.ofArguments tree working coloured arguments).tree location) := by
  rw [entry?_ofArguments starts.parsed fixing starts.ready location]
  cases final : (reportedFixes tree working location line setup).getLast? with
  | none =>
      left
      constructor
      · rintro ⟨path, listed⟩
        have reported := (inspect_mem_reportedFixes_iff fixing).mpr listed
        rw [List.getLast?_eq_none_iff.mp final] at reported
        exact List.not_mem_nil reported
      · rfl
  | some last =>
      right
      have reported := List.mem_of_getLast? final
      have settled := reported
      rw [reportedFixes_eq fixing] at settled
      obtain ⟨listed, fixes⟩ := List.mem_filter.mp settled
      rw [eq_inspect_of_mem listed] at reported fixes
      obtain ⟨member, mends⟩ := (inspect_mem_reportedFixes_iff fixing).mp reported
      obtain ⟨fixed, sourcePath, mended, opened⟩ := Result.isFixOf_iff.mp fixes
      obtain ⟨source, read, applied, -⟩ := inspect_mended mended
      obtain ⟨place, led, held⟩ := FileTree.readText_eq_ok_iff.mp read
      obtain ⟨leads, -⟩ := FileTree.openFile_eq_ok_iff.mp opened
      obtain rfl := Except.ok.inj (leads.symm.trans led)
      refine ⟨last.dump, member, mends, source, fixed, held, applied, ?_⟩
      rw [eq_inspect_of_mem listed, Option.bind_some, mended]

/-- A run that is not asked to fix, or does not get that far, leaves the tree as it was. -/
theorem tree_of_not_fixing
    (idle : ¬ ∃ line setup, Starts tree working arguments line setup ∧ line.fix = true) :
    (Run.ofArguments tree working coloured arguments).tree = tree := by
  rw [Run.ofArguments]
  split
  next line parsed =>
    rw [Run.ofCommandLine]
    split
    next setup ready =>
      have checking : line.fix = false := by
        by_contra fixing
        exact idle ⟨line, setup, ⟨parsed, ready⟩, eq_true_of_ne_false fixing⟩
      rw [Run.withSetup, checking]
      exact settleAll_checking tree working _
    next => rfl
  all_goals rfl

/-! ## Dumps that fail -/

variable (rule : setup'.rule = setup.rule) (lineEnding : setup'.lineEnding = setup.lineEnding)

include rule lineEnding in
/-- Dumps are inspected in the same way under setups with the same rule and line ending. -/
theorem inspect_congr : inspect tree working setup' = inspect tree working setup := by
  funext path
  rw [inspect, inspect, rule, lineEnding]

/-- The results that are not told as errors are those of a run that collects no dump that fails. -/
theorem filter_results : ((results tree working line setup).filter fun result =>
      !(result.event tree working line.fix).isError) =
    inspectAll tree working setup ((collected tree working line setup).filter fun path =>
      ¬ Fails tree working line setup path) := by
  rw [← filter_inspectAll]
  apply List.filter_congr
  intro result listed
  have failed : (result.event tree working line.fix).isError = true ↔
      Fails tree working line setup result.dump := by
    rw [← report_isError_iff, report, ← eq_inspect_of_mem listed]
  by_cases fails : Fails tree working line setup result.dump
  · simp [fails, failed.mpr fails]
  · simpa [fails] using mt failed.mp fails

/-- What is told about the dumps that do not fail is told about their results. -/
theorem soundReports_eq : soundReports tree working line setup =
    (inspectAll tree working setup ((collected tree working line setup).filter fun path =>
      ¬ Fails tree working line setup path)).map
        fun result => result.event tree working line.fix := by
  rw [soundReports, reports_eq, List.filter_map, ← filter_results]
  rfl

/-- A run leaves the tree in which the results of the dumps that do not fail are settled. -/
theorem tree_of_starts (starts : Starts tree working arguments line setup) :
    (Run.ofArguments tree working coloured arguments).tree =
      (settleAll tree working line.fix (inspectAll tree working setup
        ((collected tree working line setup).filter fun path =>
          ¬ Fails tree working line setup path))).2 := by
  rw [tree_ofArguments starts.parsed starts.ready, ← filter_results]
  symm
  apply settleAll_filter
  intro result listed dropped
  simpa using dropped

/-! ## What is said -/

/-- A run reports what comes of the dumps that it collects: of each of them what would come of it
    alone. Something is said about each of these reports, in their order, and a report for programs
    has a record of each of them at its end. -/
structure Reported (tree : FileTree) (working : Location) (coloured : Bool) (line : CommandLine)
    (setup : Setup) (output : Output) : Prop where
  each : (reports tree working line setup).Perm
    ((collected tree working line setup).map (report tree working line setup))
  announced : ∃ front said closing, output = front ++ .concat said ++ closing ∧
    List.Forall₂ (fun event part => event.Announced setup.format line.verbose coloured part)
      (reports tree working line setup) said ∧
    (setup.format = .json → closing = .line (Json.pretty 0 (Reporter.document
      ((reports tree working line setup).map Reporter.FileEvent.record))))

/-- What a run says is what a reporter says that is told about all dumps. -/
theorem output_of_starts (starts : Starts tree working arguments line setup) :
    Reported tree working coloured line setup
      (Run.ofArguments tree working coloured arguments).output := by
  let reporter := Reporter.start setup.format line.verbose coloured
  let told := reporter.tellAll (reports tree working line setup)
  obtain ⟨front, output⟩ : ∃ front, (Run.ofArguments tree working coloured arguments).output =
      front ++ told.2 ++ told.1.finish (!line.fix) := by
    rw [Run.ofArguments, starts.parsed]
    simp only [Run.ofCommandLine, starts.ready]
    exact ⟨_, rfl⟩
  have agrees : told.1.Agrees := (Reporter.agrees_start _ _ _).tellAll _
  have records : told.1.records = (reports tree working line setup).map Reporter.FileEvent.record :=
    Reporter.tellAll_records reporter _
  obtain ⟨format, -, -⟩ := Reporter.tellAll_style reporter (reports tree working line setup)
  let said := (reports tree working line setup).map
    (Reporter.said setup.format line.verbose coloured)
  have parts : told.2 = .concat said := Reporter.tellAll_output reporter _
  refine ⟨reports_perm, front, said, told.1.finish (!line.fix), parts ▸ output, ?_, ?_⟩
  · rw [List.forall₂_map_right_iff]
    exact List.forall₂_same.mpr fun event _ => Reporter.announced_said _ _ _ event
  · intro programs
    rw [Reporter.finish_eq_document agrees (format.trans programs), records]

/-- The exit code of a run is that for the counts of a reporter that was told about all dumps. -/
theorem exitCode_withSetup (tree : FileTree) (working : Location) (coloured : Bool)
    (line : CommandLine) (setup : Setup) :
    (withSetup tree working coloured line setup).exitCode =
      exitCode ((Reporter.start setup.format line.verbose coloured).tellAll
        (reports tree working line setup)).1.summary line.fix :=
  rfl

end Run

open Run

/-- A run changes only what it may. If it is not asked to fix, or does not get as far as looking for
    dumps, then it leaves the tree as it was. If it is asked to fix, then what each location holds
    is justified: it is the same as before, or it comes from the edits of one collected dump that
    can be used, has findings and names the file.

    All collected dumps are reported, each for itself. Another run that collects the same dumps
    apart from those that fail leaves the same tree and reports the same about the dumps that do not
    fail. -/
theorem run_changes_only_sources (tree : FileTree) (working : Location) (coloured : Bool)
    (arguments : List Text) :
    ((¬ ∃ line setup, Starts tree working arguments line setup ∧ line.fix = true) →
      (Run.ofArguments tree working coloured arguments).tree = tree) ∧
    ∀ line setup, Starts tree working arguments line setup →
      (line.fix = true → ∀ location,
        Justified tree working line setup location
          (FileTree.entry? (Run.ofArguments tree working coloured arguments).tree location)) ∧
      Reported tree working coloured line setup
        (Run.ofArguments tree working coloured arguments).output ∧
      ∀ coloured' arguments' line' setup', Starts tree working arguments' line' setup' →
        line'.fix = line.fix → setup'.rule = setup.rule → setup'.lineEnding = setup.lineEnding →
        ((collected tree working line' setup').filter fun path =>
            ¬ Fails tree working line' setup' path) =
          ((collected tree working line setup).filter fun path =>
            ¬ Fails tree working line setup path) →
        (Run.ofArguments tree working coloured' arguments').tree =
            (Run.ofArguments tree working coloured arguments).tree ∧
          soundReports tree working line' setup' = soundReports tree working line setup := by
  constructor
  · exact tree_of_not_fixing
  · intro line setup starts
    refine ⟨entry?_of_fixing starts, output_of_starts starts, ?_⟩
    intro coloured' arguments' line' setup' starts' mode rule lineEnding same
    have results : inspectAll tree working setup' = inspectAll tree working setup := by
      funext paths
      rw [inspectAll, inspectAll, inspect_congr rule lineEnding]
    constructor
    · rw [tree_of_starts starts', tree_of_starts starts, same, mode, results]
    · rw [soundReports_eq, soundReports_eq, same, mode, results]

/-- The arguments to fix what the second dump finds. -/
def fixSecond : List Text := ["--fix".toList, "b.props.json".toList]

/-- What they come to. -/
def fixSecondLine : CommandLine :=
  { CommandLine.empty with fix := true, paths := [⟨"b.props.json".toList⟩] }

/-- A dump that breaks off does not keep the other one from being fixed. -/
theorem second_fixed_beside_broken :
    FileTree.entry? (Run.ofArguments (twoDumps "[" secondTagDump) [] false fixBoth).tree
      ["App.jsx".toList] = some (.file (.text "<A b c/>\n<D e\n   f/>\n".toList)) := by
  have both : Starts (twoDumps "[" secondTagDump) [] fixBoth fixBothLine plainSetup :=
    ⟨parse_fixBoth, by decide +kernel⟩
  have second : Starts (twoDumps "[" secondTagDump) [] fixSecond fixSecondLine plainSetup :=
    ⟨by decide +kernel, by decide +kernel⟩
  obtain ⟨-, effects⟩ := run_changes_only_sources (twoDumps "[" secondTagDump) [] false fixBoth
  obtain ⟨-, -, undisturbed⟩ := effects fixBothLine plainSetup both
  have alone := (undisturbed false fixSecond fixSecondLine plainSetup second rfl rfl rfl
    (by decide +kernel)).1
  rw [← alone]
  decide +kernel

end TagWrap
