import Mathlib.Data.List.Dedup
import TagWrap.Proofs.NewLines
import TagWrap.Proofs.Writes

/-!
# Which reported fixes a run keeps

A run that fixes inspects all dumps in the tree as it was before the run and then writes one full
text for each dump with findings. When several dumps name one source file, the text of the dump
that is reported last stays, and it was made from the old source with the edits of that dump
alone. The fixes of the other dumps are reported all the same. A file that cannot be written is not
reported as fixed for any of its dumps, and it keeps its text.

`fix_kept_iff` says exactly when that loses nothing: the file holds what the edits of all reported
dumps make of the old source together if and only if every one of these edits is an edit of the
dump that is reported last.
-/
namespace TagWrap

open Text

/-- The source of a dump is read at its path. -/
theorem Dump.load_source {tree : FileTree} {working : Location} {path : Path} {loaded : Loaded}
    (read : Dump.load tree working path = .ok loaded) :
    tree.readText working loaded.sourcePath = .ok loaded.source := by
  simp only [Dump.load, bind_eq_ok, mapError_eq_ok] at read
  obtain ⟨text, _, dump, _, source, held, same⟩ := read
  obtain rfl := Except.ok.inj same
  exact held

/-- A source with violations is mended by the batch of their edits. -/
theorem Inspection.applied_of_mended {config : RuleConfig} {lineEnding : Option LineEnding}
    {sourcePath : Path} {source newSource : Text} {elements : List Element}
    {inspection : Inspection}
    (inspected : ofElements config lineEnding sourcePath source elements = .ok inspection)
    (mended : inspection.newSource = some newSource) :
    inspection.sourcePath = sourcePath ∧
      Edit.applyAll source ((Rule.checkAll
        { config with lineEnding := lineEnding.getD (.detect source) } elements).map
          Violation.edit) = .ok newSource := by
  simp only [ofElements] at inspected
  split at inspected
  · obtain rfl := Except.ok.inj inspected
    contradiction
  · simp only [bind_eq_ok, mapError_eq_ok] at inspected
    obtain ⟨fixed, applied, same⟩ := inspected
    obtain rfl := Except.ok.inj same
    obtain rfl := Option.some.inj mended
    exact ⟨rfl, applied⟩

namespace Run

variable {tree : FileTree} {working location : Location} {setup : Setup} {path : Path}

/-- The results of a run in the order in which they are reported. -/
def results (tree : FileTree) (working : Location) (line : CommandLine) (setup : Setup) :
    List Result :=
  inspectAll tree working setup ((line.paths.map (find tree working setup.config)).flatMap
    Found.dumpPaths)

/-- What a run tells about its results, in the order in which it settles them. -/
def reports (tree : FileTree) (working : Location) (line : CommandLine) (setup : Setup) :
    List Reporter.FileEvent :=
  (settleAll tree working line.fix (results tree working line setup)).1

/-- The edits that are planned for the dump at a path. There are none if it cannot be used. -/
def plannedEdits (tree : FileTree) (working : Location) (setup : Setup) (path : Path) :
    List Edit :=
  match Dump.load tree working path with
  | .error _ => []
  | .ok loaded =>
      match loaded.elements with
      | .error _ => []
      | .ok elements =>
          let config :=
            { setup.rule with lineEnding := setup.lineEnding.getD (.detect loaded.source) }
          (Rule.checkAll config elements).map Violation.edit

/-- A dump with findings names a source that could be read, and its new text is what its edits make
    of the source. Each of the edits adds a line. -/
theorem inspect_mended {sourcePath : Path} {newSource : Text}
    (mended : (inspect tree working setup path).mended? = some (sourcePath, newSource)) :
    ∃ source, tree.readText working sourcePath = .ok source ∧
      Edit.applyAll source (plannedEdits tree working setup path) = .ok newSource ∧
      ∀ edit ∈ plannedEdits tree working setup path, Edit.AddsLine source edit := by
  obtain ⟨inspection, inspected, found⟩ : ∃ inspection,
      Inspection.ofDump tree working setup.rule setup.lineEnding path = .ok inspection ∧
        inspection.newSource.map (inspection.sourcePath, ·) = some (sourcePath, newSource) := by
    simp only [inspect, Result.mended?] at mended
    cases inspected : Inspection.ofDump tree working setup.rule setup.lineEnding path with
    | error error => simp [inspected] at mended
    | ok inspection => exact ⟨inspection, rfl, by simpa [inspected] using mended⟩
  simp only [Inspection.ofDump, bind_eq_ok, mapError_eq_ok] at inspected
  obtain ⟨loaded, read, elements, built, checked⟩ := inspected
  obtain ⟨text, hasText, same⟩ := Option.map_eq_some_iff.mp found
  obtain ⟨rfl, rfl⟩ := Prod.mk.inj same
  obtain ⟨named, applied⟩ := Inspection.applied_of_mended checked hasText
  have planned : plannedEdits tree working setup path = (Rule.checkAll
      { setup.rule with lineEnding := setup.lineEnding.getD (.detect loaded.source) }
        elements).map Violation.edit := by
    simp only [plannedEdits, read, built]
  refine ⟨loaded.source, named ▸ Dump.load_source read, planned ▸ applied, ?_⟩
  rw [planned]
  have accepted := TagRanges.exists_accepted (Dump.Loaded.accepted_of_elements built)
  exact TagRanges.edits_add_lines accepted

/-- The results of a run are those of the dumps that they are reported for. -/
theorem eq_inspect_of_mem {line : CommandLine} {result : Result}
    (member : result ∈ results tree working line setup) :
    result = inspect tree working setup result.dump := by
  have listed := (List.mergeSort_perm _ _).mem_iff.mp member
  obtain ⟨path, -, rfl⟩ := List.mem_map.mp listed
  rfl

/-- Dumps that are given in the order of their paths are reported in that order. -/
theorem results_of_sorted {line : CommandLine} {paths : List Path}
    (found : (line.paths.map (find tree working setup.config)).flatMap Found.dumpPaths = paths)
    (sorted : paths.Pairwise fun first second => (first.compare second != .gt) = true) :
    results tree working line setup = paths.map (inspect tree working setup) := by
  rw [results, found, inspectAll]
  exact List.mergeSort_of_pairwise (List.pairwise_map.mpr sorted)

/-- A run whose setup is done leaves the tree in which all its results are settled. -/
theorem tree_withSetup (tree : FileTree) (working : Location) (coloured : Bool)
    (line : CommandLine) (setup : Setup) :
    (withSetup tree working coloured line setup).tree =
      (settleAll tree working line.fix (results tree working line setup)).2 :=
  rfl

/-- A run leaves the tree in which all its results are settled. -/
theorem tree_ofArguments {coloured : Bool} {arguments : List Text} {line : CommandLine}
    (parsed : CommandLine.parse arguments = .ok (.run line))
    (ready : Setup.ofCommandLine tree working line = .ok setup) :
    (Run.ofArguments tree working coloured arguments).tree =
      (settleAll tree working line.fix (results tree working line setup)).2 := by
  simp only [Run.ofArguments, parsed, Run.ofCommandLine, ready]
  exact tree_withSetup tree working coloured line setup

/-- The fixes of the file at a location that a run reports, in the order of the reports. -/
def reportedFixes (tree : FileTree) (working location : Location) (line : CommandLine)
    (setup : Setup) : List Result :=
  (((results tree working line setup).zip (reports tree working line setup)).filter
    fun told => told.2.isFixOf tree working location).map Prod.fst

/-- A run that fixes reports the results that are fixes of a file when they are settled first. -/
theorem reportedFixes_eq {line : CommandLine} (fixing : line.fix = true) :
    reportedFixes tree working location line setup =
      (results tree working line setup).filter (Result.isFixOf tree working location) := by
  rw [reportedFixes, reports, settleAll_events, fixing, ← List.map_prod_left_eq_zip,
    List.filter_map, List.map_map]
  exact List.map_id _

/-- The distinct edits of all dumps for which a fix of the file at a location is reported. -/
def reportedEdits (tree : FileTree) (working location : Location) (line : CommandLine)
    (setup : Setup) : List Edit :=
  ((reportedFixes tree working location line setup).flatMap fun result =>
    plannedEdits tree working setup result.dump).dedup

/-- What a reported fix of a file comes from: its edits make its text of what the file held. -/
theorem applied_of_reported {line : CommandLine} {source : Text} {result : Result}
    (fixing : line.fix = true) (held : tree.entry? location = some (.file (.text source)))
    (reported : result ∈ reportedFixes tree working location line setup) :
    ∃ path newSource, result.mended? = some (path, newSource) ∧
      Edit.applyAll source (plannedEdits tree working setup result.dump) = .ok newSource ∧
      ∀ edit ∈ plannedEdits tree working setup result.dump, Edit.AddsLine source edit := by
  rw [reportedFixes_eq fixing] at reported
  obtain ⟨listed, fixes⟩ := List.mem_filter.mp reported
  obtain ⟨newSource, path, mended, opened⟩ := Result.isFixOf_iff.mp fixes
  refine ⟨path, newSource, mended, ?_⟩
  rw [eq_inspect_of_mem listed] at mended
  obtain ⟨source', read, applied, adds⟩ := inspect_mended mended
  obtain ⟨place, led, found⟩ := FileTree.readText_eq_ok_iff.mp read
  obtain ⟨leads, -⟩ := FileTree.openFile_eq_ok_iff.mp opened
  obtain rfl := Except.ok.inj (leads.symm.trans led)
  have same : source' = source := by simpa [held] using found.symm
  exact same ▸ ⟨applied, adds⟩

/-- An edit is reported when it is planned for a dump that is. -/
theorem mem_reportedEdits {line : CommandLine} {edit : Edit} :
    edit ∈ reportedEdits tree working location line setup ↔
      ∃ result ∈ reportedFixes tree working location line setup,
        edit ∈ plannedEdits tree working setup result.dump := by
  rw [reportedEdits, List.mem_dedup, List.mem_flatMap]

/-- All reported edits add a line. -/
theorem reportedEdits_add_lines {line : CommandLine} {source : Text} (fixing : line.fix = true)
    (held : tree.entry? location = some (.file (.text source))) :
    ∀ edit ∈ reportedEdits tree working location line setup, Edit.AddsLine source edit := by
  intro edit member
  obtain ⟨result, reported, planned⟩ := mem_reportedEdits.mp member
  obtain ⟨_, _, _, _, adds⟩ := applied_of_reported fixing held reported
  exact adds edit planned

/-- A run that fixes leaves in each file the new text of the dump that is reported last as a fix
    of it, and all else as it was. -/
theorem entry?_ofArguments {coloured : Bool} {arguments : List Text} {line : CommandLine}
    (parsed : CommandLine.parse arguments = .ok (.run line)) (fixing : line.fix = true)
    (ready : Setup.ofCommandLine tree working line = .ok setup) (location : Location) :
    FileTree.entry? (Run.ofArguments tree working coloured arguments).tree location =
      match (reportedFixes tree working location line setup).getLast?.bind Result.mended? with
      | none => tree.entry? location
      | some (_, newSource) => some (.file (.text newSource)) := by
  rw [tree_ofArguments parsed ready, reportedFixes_eq fixing, fixing]
  exact entry?_settleAll tree working location _

end Run

open Run

/-- A run keeps all fixes of a file that it reports, wherever their edits can be made together,
    exactly when each of these edits is planned for the dump that is reported last.

    What the file holds after the run is what the edits of that dump alone make of the old text.
    Edits that are left out would have added lines. -/
theorem fix_kept_iff {tree : FileTree} {working location : Location} {coloured : Bool}
    {arguments : List Text} {line : CommandLine} {setup : Setup} {source fixed : Text}
    (parsed : CommandLine.parse arguments = .ok (.run line)) (fixing : line.fix = true)
    (ready : Setup.ofCommandLine tree working line = .ok setup)
    (held : tree.entry? location = some (.file (.text source)))
    (applied : Edit.applyAll source (reportedEdits tree working location line setup) = .ok fixed) :
    FileTree.entry? (Run.ofArguments tree working coloured arguments).tree location =
        some (.file (.text fixed)) ↔
      ∀ last ∈ (reportedFixes tree working location line setup).getLast?,
        ∀ result ∈ reportedFixes tree working location line setup,
          plannedEdits tree working setup result.dump ⊆
            plannedEdits tree working setup last.dump := by
  rw [entry?_ofArguments parsed fixing ready]
  cases latest : (reportedFixes tree working location line setup).getLast? with
  | none =>
      have no_fix : reportedFixes tree working location line setup = [] :=
        List.getLast?_eq_none_iff.mp latest
      have untouched : Edit.applyAll source [] = .ok source :=
        Edit.applyAll_eq_ok_iff.mpr ⟨[], .refl [], .nil, .rest 0 source⟩
      have none_planned : reportedEdits tree working location line setup = [] := by
        simp [reportedEdits, no_fix]
      rw [none_planned] at applied
      have kept : source = fixed := Except.ok.inj (untouched.symm.trans applied)
      simp [held, kept]
  | some last =>
      have listed : last ∈ reportedFixes tree working location line setup :=
        List.mem_of_getLast? latest
      obtain ⟨path, newSource, mended, made, -⟩ := applied_of_reported fixing held listed
      have within : plannedEdits tree working setup last.dump ⊆
          reportedEdits tree working location line setup := fun edit planned =>
        mem_reportedEdits.mpr ⟨last, listed, planned⟩
      have holds : (some (Entry.file (.text newSource)) = some (.file (.text fixed))) ↔
          newSource = fixed := by simp
      rw [Option.bind_some, mended]
      change some (Entry.file (.text newSource)) = some (.file (.text fixed)) ↔ _
      rw [holds, Edit.applyAll_part_iff (reportedEdits_add_lines fixing held) within made applied]
      constructor
      · intro covered latest' known result fixes edit planned
        obtain rfl := Option.some.inj known
        exact covered (mem_reportedEdits.mpr ⟨result, fixes, planned⟩)
      · intro covered edit member
        obtain ⟨result, fixes, planned⟩ := mem_reportedEdits.mp member
        exact covered last rfl result fixes planned

/-- A source with two tags that are too full, and two dumps that name it. -/
def twoDumps (first second : String) : FileTree :=
  .ofEntries [] [(["App.jsx".toList], .text "<A b c/>\n<D e f/>\n".toList),
    (["a.props.json".toList], .text first.toList), (["b.props.json".toList], .text second.toList)]

/-- A dump of the first tag. -/
def firstTagDump : String := "[\"App.jsx\",[[0,8,[[3,4],[5,6]]]]]"

/-- A dump of the second tag. -/
def secondTagDump : String := "[\"App.jsx\",[[9,17,[[12,13],[14,15]]]]]"

/-- The arguments to fix what both dumps find. -/
def fixBoth : List Text := ["--fix".toList, "a.props.json".toList, "b.props.json".toList]

/-- What the arguments come to. -/
def fixBothLine : CommandLine :=
  { CommandLine.empty with
    fix := true
    paths := [⟨"a.props.json".toList⟩, ⟨"b.props.json".toList⟩] }

/-- What the command line comes to where nothing is configured. -/
def plainSetup : Setup := ⟨none, .empty, .text, ⟨.flat 1, .always, .lf⟩, none⟩

theorem parse_fixBoth : CommandLine.parse fixBoth = .ok (.run fixBothLine) := by decide +kernel

/-- Both dumps are inspected, in the order of their names. -/
theorem results_fixBoth (first second : String) :
    results (twoDumps first second) [] fixBothLine plainSetup =
      fixBothLine.paths.map (inspect (twoDumps first second) [] plainSetup) :=
  results_of_sorted rfl (by decide +kernel)

/-- Two dumps of one tag plan the same edit, and it is kept. -/
theorem fix_kept_same_tag :
    FileTree.entry? (Run.ofArguments (twoDumps firstTagDump firstTagDump) [] false fixBoth).tree
      ["App.jsx".toList] = some (.file (.text "<A b\n   c/>\n<D e f/>\n".toList)) := by
  have ready : Setup.ofCommandLine (twoDumps firstTagDump firstTagDump) [] fixBothLine =
      .ok plainSetup := by decide +kernel
  have held : FileTree.entry? (twoDumps firstTagDump firstTagDump) ["App.jsx".toList] =
      some (.file (.text "<A b c/>\n<D e f/>\n".toList)) := by decide +kernel
  refine (fix_kept_iff parse_fixBoth rfl ready held ?applied).mpr ?covered
  case applied =>
    rw [reportedEdits, reportedFixes_eq rfl, results_fixBoth]
    decide +kernel
  case covered =>
    rw [reportedFixes_eq rfl, results_fixBoth]
    decide +kernel

/-- Two dumps of different tags are both reported as fixed and the edits of both can be made
    together, but the file holds the edits of the second dump alone. -/
theorem fix_lost_two_tags :
    (reportedFixes (twoDumps firstTagDump secondTagDump) [] ["App.jsx".toList] fixBothLine
      plainSetup).map Result.dump = fixBothLine.paths ∧
    Edit.applyAll "<A b c/>\n<D e f/>\n".toList (reportedEdits (twoDumps firstTagDump secondTagDump)
      [] ["App.jsx".toList] fixBothLine plainSetup) = .ok "<A b\n   c/>\n<D e\n   f/>\n".toList ∧
    FileTree.entry? (Run.ofArguments (twoDumps firstTagDump secondTagDump) [] false fixBoth).tree
      ["App.jsx".toList] = some (.file (.text "<A b c/>\n<D e\n   f/>\n".toList)) := by
  have ready : Setup.ofCommandLine (twoDumps firstTagDump secondTagDump) [] fixBothLine =
      .ok plainSetup := by decide +kernel
  refine ⟨?_, ?_, ?_⟩
  · rw [reportedFixes_eq rfl, results_fixBoth]
    decide +kernel
  · rw [reportedEdits, reportedFixes_eq rfl, results_fixBoth,
      Edit.applyAll_of_increasing (by decide +kernel)]
    decide +kernel
  · rw [tree_ofArguments parse_fixBoth ready, results_fixBoth]
    decide +kernel

end TagWrap
