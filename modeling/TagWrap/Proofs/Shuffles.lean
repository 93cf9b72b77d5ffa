import Mathlib.Data.List.Perm.Basic
import TagWrap.Proofs.Effects

/-!
# The order of paths and entries

What a run reports and what it leaves behind does not depend on the order in which paths are given
or in which a directory is walked. A tree with its entries in another order holds the same at each
location, so whatever is read is the same. Paths in another order lead to the same dumps in another
order, each as often as before. Results are sorted by the paths of their dumps, and where paths that
are level are the same path, a sorted list is all that its values can come to: results for the same
path are the same result. So the reports are the same, and the writes are the same in the same
order.

Only the warnings about paths that lead nowhere come in the order of the arguments. They are
written to the second stream.
-/
namespace TagWrap

namespace FileTree

variable {tree tree' : FileTree} {working location : Location} {path : Path} {entry : Entry}
  {text : Text}

/-- Two trees have the same entries, perhaps in another order. They hold the same at each location,
    and the same files are guarded for the same reasons. -/
structure Shuffled (tree tree' : FileTree) : Prop where
  entries : tree.entries.Perm tree'.entries
  held : ∀ location, tree.entry? location = tree'.entry? location
  guards : ∀ location, tree.guard? location = tree'.guard? location

/-- In a tree with distinct locations the entry at a location is the one that is listed for it. -/
theorem entry?_eq_some_iff (distinct : (tree.entries.map Prod.fst).Nodup) (named : location ≠ []) :
    tree.entry? location = some entry ↔ (location, entry) ∈ tree.entries := by
  rw [FileTree.entry?, if_neg named, Option.map_eq_some_iff]
  constructor
  · rintro ⟨⟨place, entry⟩, found, rfl⟩
    have here : place = location := by simpa using List.find?_some found
    exact here ▸ List.mem_of_find?_eq_some found
  · intro listed
    cases found : tree.entries.find? fun other => decide (other.1 = location) with
    | none => simpa using List.find?_eq_none.mp found _ listed
    | some other =>
        have here : other.1 = location := by simpa using List.find?_some found
        have same := List.inj_on_of_nodup_map distinct (List.mem_of_find?_eq_some found) listed here
        exact ⟨other, rfl, congrArg Prod.snd same⟩

namespace Shuffled

/-- A tree with distinct locations may have its entries in any order. -/
theorem of_distinct (distinct : (tree.entries.map Prod.fst).Nodup)
    (entries : tree.entries.Perm tree'.entries) (guards : tree.guards = tree'.guards) :
    tree.Shuffled tree' := by
  have guarded (location : Location) : tree.guard? location = tree'.guard? location := by
    rw [guard?, guard?, guards]
  refine ⟨entries, fun location => ?_, guarded⟩
  by_cases root : location = []
  · simp [FileTree.entry?, root]
  · have distinct' : (tree'.entries.map Prod.fst).Nodup := (entries.map Prod.fst).nodup distinct
    apply Option.ext
    intro entry
    rw [entry?_eq_some_iff distinct root, entry?_eq_some_iff distinct' root, entries.mem_iff]

variable (shuffled : tree.Shuffled tree')
include shuffled

theorem sameShape : SameShape tree tree' := fun location => by
  rw [kindAt?, kindAt?, shuffled.held]

/-- The trees are alike for those who write. -/
theorem alike : Alike tree tree' := ⟨shuffled.sameShape, shuffled.guards⟩

/-- Paths lead to the same entry. -/
theorem lookup_eq : tree.lookup working path = tree'.lookup working path := by
  simp only [lookup, locate_eq shuffled.sameShape, shuffled.held]

theorem isFile_eq : tree.isFile working path = tree'.isFile working path := by
  simp only [isFile, shuffled.lookup_eq]

theorem isDirectory_eq : tree.isDirectory working path = tree'.isDirectory working path := by
  simp only [isDirectory, shuffled.lookup_eq]

theorem pathExists_eq : tree.pathExists working path = tree'.pathExists working path := by
  simp only [pathExists, shuffled.lookup_eq]

/-- The same texts are read. -/
theorem readText_eq : tree.readText working path = tree'.readText working path := by
  simp only [readText, shuffled.lookup_eq]

/-- A directory is walked to the same files, in some order. -/
theorem walk_perm : (tree.walk working path).Perm (tree'.walk working path) := by
  rw [walk, walk, locate_eq shuffled.sameShape]
  cases tree'.locate working path with
  | error error => exact .refl []
  | ok location => exact shuffled.entries.filterMap _

/-- A write to both trees leaves them with the same entries. -/
theorem writeAt (location : Location) (text : Text) :
    (tree.writeAt location text).Shuffled (tree'.writeAt location text) where
  entries := shuffled.entries.map _
  held place := by rw [entry?_writeAt, entry?_writeAt, shuffled.held]
  guards := shuffled.guards

/-- A result that is settled in both trees leaves them with the same entries. -/
theorem settle (result : Run.Result) (working : Location) (fixing : Bool) :
    (result.settle tree working fixing).2.Shuffled (result.settle tree' working fixing).2 := by
  have same (location : Location) (text : Text) :
      result.Lands tree working location text ↔ result.Lands tree' working location text := by
    simp only [Run.Result.Lands, openFile_eq shuffled.alike]
  obtain ⟨location, text, wants, lands, after, -⟩ | ⟨astray, after, -⟩ :=
    result.settle_cases tree working fixing
  · obtain ⟨location', text', -, lands', after', -⟩ | ⟨astray', -⟩ :=
      result.settle_cases tree' working fixing
    · obtain ⟨rfl, rfl⟩ := ((same _ _).mp lands).unique lands'
      rw [after, after']
      exact shuffled.writeAt location text
    · exact absurd ((same _ _).mp lands) (astray' wants _ _)
  · obtain ⟨location', text', wants', lands', -⟩ | ⟨-, after', -⟩ :=
      result.settle_cases tree' working fixing
    · exact absurd ((same _ _).mpr lands') (astray wants' _ _)
    · rw [after, after']
      exact shuffled

omit shuffled in
/-- The same is told about results that are settled in both trees. -/
theorem settleAll_events_eq (shuffled : tree.Shuffled tree') (working : Location) (fixing : Bool)
    (results : List Run.Result) :
    (Run.settleAll tree working fixing results).1 =
      (Run.settleAll tree' working fixing results).1 := by
  rw [Run.settleAll_events, Run.settleAll_events]
  exact List.map_congr_left fun result _ => result.event_eq shuffled.alike working fixing

omit shuffled in
/-- Results that are settled in both trees leave them with the same entries. -/
theorem settleAll (shuffled : tree.Shuffled tree') (working : Location) (fixing : Bool)
    (results : List Run.Result) :
    (Run.settleAll tree working fixing results).2.Shuffled
      (Run.settleAll tree' working fixing results).2 := by
  induction results generalizing tree tree' with
  | nil => exact shuffled
  | cons result results inductionHypothesis =>
      exact inductionHypothesis (shuffled.settle result working fixing)

/-- The same configuration is loaded. -/
theorem load_eq : Config.load tree working path = Config.load tree' working path := by
  rw [Config.load, Config.load, shuffled.readText_eq]

/-- The same configuration is found. -/
theorem search_eq : Config.search tree working path = Config.search tree' working path := by
  have found (fuel : Nat) (directory : Path) :
      Config.findFrom tree working fuel directory =
        Config.findFrom tree' working fuel directory := by
    induction fuel generalizing directory with
    | zero => rfl
    | succ fuel inductionHypothesis =>
        simp only [Config.findFrom, shuffled.pathExists_eq, inductionHypothesis]
  simp only [Config.search, found, shuffled.load_eq]

/-- A command line comes to the same. -/
theorem setup_eq {line : CommandLine} :
    Setup.ofCommandLine tree working line = Setup.ofCommandLine tree' working line := by
  have configured : Setup.configFor tree working line = Setup.configFor tree' working line := by
    simp only [Setup.configFor, shuffled.load_eq, shuffled.search_eq]
  rw [Setup.ofCommandLine, Setup.ofCommandLine, configured]

/-- Dumps are inspected to the same results. -/
theorem inspect_eq {setup : Setup} :
    Run.inspect tree working setup = Run.inspect tree' working setup := by
  funext path
  have loaded : Dump.load tree working path = Dump.load tree' working path := by
    simp only [Dump.load, shuffled.readText_eq]
  simp only [Run.inspect, Inspection.ofDump, loaded]

/-- A path leads to the same dumps, in some order. -/
theorem find_perm {config : Config} :
    (Run.find tree working config path).dumpPaths.Perm
      (Run.find tree' working config path).dumpPaths := by
  rw [Run.find, Run.find, shuffled.isFile_eq, shuffled.isDirectory_eq]
  by_cases file : tree'.isFile working path = true
  · rw [if_pos file, if_pos file]
  · rw [if_neg file, if_neg file]
    by_cases directory : tree'.isDirectory working path = true
    · rw [if_pos directory, if_pos directory]
      exact shuffled.walk_perm.filter _
    · rw [if_neg directory, if_neg directory]

end Shuffled

end FileTree

/-- Two paths of which each comes before the other are level. -/
theorem Path.compare_antisymm {first second : Path} (before : (first.compare second != .gt) = true)
    (after : (second.compare first != .gt) = true) : first.compare second = .eq := by
  have swap : second.compare first = (first.compare second).swap := Std.OrientedCmp.eq_swap
  rw [swap] at after
  cases order : first.compare second with
  | eq => rfl
  | lt => simp [order] at after
  | gt => simp [order] at before

/-- What is warned about is not written to the first stream. -/
theorem Output.stdout_warnings {α : Type} (warn : α → Text) (values : List α) :
    (concat (values.map fun value => warning (warn value))).stdout = [] := by
  induction values with
  | nil => rfl
  | cons value values inductionHypothesis => exact inductionHypothesis

/-- Two runs write the same to the first stream, end with the same exit code and leave trees with
    the same entries. -/
structure Outcome.Agrees (first second : Outcome) : Prop where
  stdout : first.output.stdout = second.output.stdout
  exitCode : first.exitCode = second.exitCode
  tree : first.tree.Shuffled second.tree

namespace Run

variable {tree tree' : FileTree} {working : Location} {line : CommandLine} {setup : Setup}
  {paths paths' : List Path}

/-- Paths that are level are the same path. -/
def Canonical (paths : List Path) : Prop :=
  ∀ first ∈ paths, ∀ second ∈ paths, first.compare second = .eq → first = second

instance (paths : List Path) : Decidable (Canonical paths) :=
  inferInstanceAs (Decidable (∀ first ∈ paths, ∀ second ∈ paths,
    first.compare second = .eq → first = second))

/-- Dumps come to the same results in whatever order they are found. -/
theorem inspectAll_eq_of_perm (permuted : paths.Perm paths') (canonical : Canonical paths) :
    inspectAll tree working setup paths = inspectAll tree working setup paths' := by
  have sorted (paths : List Path) : (inspectAll tree working setup paths).Pairwise
      fun (first second : Result) => (first.dump.compare second.dump != .gt) = true := by
    apply List.pairwise_mergeSort
    · exact fun _ _ _ => Path.compare_trans
    · exact fun first second => Path.compare_total first.dump second.dump
  have results (paths : List Path) : (inspectAll tree working setup paths).Perm
      (paths.map (inspect tree working setup)) := List.mergeSort_perm _ _
  apply List.Perm.eq_of_pairwise ?level (sorted paths) (sorted paths')
  · exact (results paths).trans ((permuted.map _).trans (results paths').symm)
  -- Results that may stand in either order are of dumps that are level, so of the same dump.
  case level =>
    intro first second listed listed' before after
    obtain ⟨dump, member, rfl⟩ := List.mem_map.mp ((results paths).mem_iff.mp listed)
    obtain ⟨dump', member', rfl⟩ := List.mem_map.mp ((results paths').mem_iff.mp listed')
    exact congrArg _ (canonical dump member dump' (permuted.mem_iff.mpr member')
      (Path.compare_antisymm before after))

/-- Paths in another order lead to the same dumps, in some order. -/
theorem collected_perm (shuffled : tree.Shuffled tree') (permuted : line.paths.Perm paths) :
    (collected tree working line setup).Perm
      (collected tree' working { line with paths } setup) := by
  rw [collected, collected, List.flatMap_map, List.flatMap_map]
  exact permuted.flatMap fun path _ => shuffled.find_perm

/-- Paths in another order lead to the same results in the same order. -/
theorem results_eq (shuffled : tree.Shuffled tree') (permuted : line.paths.Perm paths)
    (canonical : Canonical (collected tree working line setup)) :
    results tree working line setup = results tree' working { line with paths } setup := by
  calc results tree working line setup
      = inspectAll tree working setup (collected tree' working { line with paths } setup) :=
        inspectAll_eq_of_perm (collected_perm shuffled permuted) canonical
    _ = results tree' working { line with paths } setup := by
        rw [inspectAll, shuffled.inspect_eq]
        rfl

/-- What a run writes to the first stream does not tell of the paths that lead nowhere. -/
theorem stdout_withSetup (tree : FileTree) (working : Location) (coloured : Bool)
    (line : CommandLine) (setup : Setup) :
    let reporter := Reporter.start setup.format line.verbose coloured
    let told := reporter.tellAll (reports tree working line setup)
    (withSetup tree working coloured line setup).output.stdout =
      Output.stdout (if line.verbose ∧ setup.format = .text then
        preamble reporter setup line.fix else .empty) ++
      told.2.stdout ++ (told.1.finish (!line.fix)).stdout := by
  intro reporter told
  have silent (missing : List Path) : Output.stdout (if setup.format = .text then
      Output.concat (missing.map fun path =>
        .warning (reporter.styled .yellow "Warning" ++ s!": Path does not exist: {path}".toList))
      else .empty) = [] := by
    split
    · exact Output.stdout_warnings _ missing
    · rfl
  calc (withSetup tree working coloured line setup).output.stdout
      = Output.stdout (if line.verbose ∧ setup.format = .text then
            preamble reporter setup line.fix else .empty) ++
          Output.stdout (if setup.format = .text then
            Output.concat (((line.paths.map (find tree working setup.config)).filterMap
              Found.missingPath?).map fun path => .warning (reporter.styled .yellow "Warning" ++
                s!": Path does not exist: {path}".toList)) else .empty) ++
          told.2.stdout ++ (told.1.finish (!line.fix)).stdout := rfl
    _ = _ := by rw [silent, List.append_nil]

/-- Runs with the same setup agree when their paths are the same in another order. -/
theorem withSetup_agrees (coloured : Bool) (shuffled : tree.Shuffled tree')
    (permuted : line.paths.Perm paths)
    (canonical : Canonical (collected tree working line setup)) :
    (withSetup tree working coloured line setup).Agrees
      (withSetup tree' working coloured { line with paths } setup) := by
  have same := results_eq shuffled permuted canonical
  have told : reports tree working line setup =
      reports tree' working { line with paths } setup := by
    rw [reports, reports, same]
    exact shuffled.settleAll_events_eq working line.fix _
  constructor
  case stdout => rw [stdout_withSetup, stdout_withSetup, told]
  case exitCode => rw [exitCode_withSetup, exitCode_withSetup, told]
  case tree =>
    rw [tree_withSetup, tree_withSetup, ← same]
    exact shuffled.settleAll working line.fix _

end Run

open Run

/-- The order of paths and entries is immaterial. Two runs whose arguments differ in the order of
    the paths, in trees whose entries differ in their order, write the same to the first stream, end
    with the same exit code and leave trees that hold the same, provided that dumps with level paths
    have the same path. Paths may be given more than once, and directories may overlap. -/
theorem order_immaterial {tree tree' : FileTree} {working : Location} {coloured : Bool}
    {arguments arguments' : List Text} {line : CommandLine} {paths : List Path}
    (parsed : CommandLine.parse arguments = .ok (.run line))
    (parsed' : CommandLine.parse arguments' = .ok (.run { line with paths }))
    (permuted : line.paths.Perm paths) (shuffled : tree.Shuffled tree')
    (canonical : ∀ setup, Setup.ofCommandLine tree working line = .ok setup →
      Canonical (collected tree working line setup)) :
    (Run.ofArguments tree working coloured arguments).Agrees
      (Run.ofArguments tree' working coloured arguments') := by
  rw [Run.ofArguments, Run.ofArguments, parsed, parsed']
  have same : Setup.ofCommandLine tree' working { line with paths } =
      Setup.ofCommandLine tree working line := shuffled.setup_eq.symm
  simp only [Run.ofCommandLine, same]
  -- Where the setup fails, both runs end with the same message and leave their trees alone.
  cases ready : Setup.ofCommandLine tree working line with
  | ok setup => exact withSetup_agrees coloured shuffled permuted (canonical setup ready)
  | error error => exact ⟨rfl, rfl, shuffled⟩

/-- The arguments to fix all dumps below a directory, and one of them by name. -/
def fixOverlapping : List Text := ["--fix".toList, ".".toList, "a.props.json".toList]

/-- What they come to. -/
def fixOverlappingLine : CommandLine :=
  { fixBothLine with paths := [⟨".".toList⟩, ⟨"a.props.json".toList⟩] }

/-- It does not matter whether the dump is named before or behind its directory, nor in which order
    the directory is walked. -/
theorem order_immaterial_overlapping :
    (Run.ofArguments (twoDumps firstTagDump secondTagDump) [] false fixOverlapping).Agrees
      (Run.ofArguments ⟨(twoDumps firstTagDump secondTagDump).entries.reverse, []⟩ [] false
        ["a.props.json".toList, "--fix".toList, ".".toList]) := by
  have ready : Setup.ofCommandLine (twoDumps firstTagDump secondTagDump) [] fixOverlappingLine =
      .ok plainSetup := by decide +kernel
  have swapped : fixOverlappingLine.paths.Perm [⟨"a.props.json".toList⟩, ⟨".".toList⟩] :=
    List.Perm.swap _ _ []
  have shuffled : (twoDumps firstTagDump secondTagDump).Shuffled
      ⟨(twoDumps firstTagDump secondTagDump).entries.reverse, []⟩ :=
    .of_distinct (by decide +kernel) (List.reverse_perm _).symm rfl
  apply order_immaterial (by decide +kernel) (by decide +kernel) swapped shuffled
  intro setup started
  obtain rfl := Except.ok.inj (ready.symm.trans started)
  decide +kernel

end TagWrap
