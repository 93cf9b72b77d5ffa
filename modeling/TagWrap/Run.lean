import TagWrap.CommandLine
import TagWrap.Config
import TagWrap.Report.Reporter

/-!
# Runs

A run looks at a file tree, says what it found, and leaves a file tree behind. All dumps
are inspected in the tree as it was before the run, whatever is written later, and they
are reported in the order of their paths. Only a run that fixes writes, and only the
sources of dumps with findings.
-/
namespace TagWrap

/-- Why a run ends before it inspects anything. -/
inductive SetupError where
  | config (error : ConfigError)
  /-- A name that is no report format. -/
  | format (name : String)
  | rule (error : OutOfRange)
  /-- A name that is no line ending. -/
  | lineEnding (name : String)
deriving DecidableEq, Repr

/-- The wording of an error. -/
def SetupError.message : SetupError → String
  | config error => error.message
  | format name => unknownFormatMessage name
  | rule error => s!"Invalid rule options: {error.message}"
  | lineEnding name => unknownLineEndingMessage name

/-- What the command line and the configuration file come to. -/
structure Setup where
  /-- The file that the configuration is from. -/
  configPath : Option Path
  config : Config
  format : ReportFormat
  rule : RuleConfig
  /-- The line ending for all files, or none for that of each file. -/
  lineEnding : Option LineEnding
deriving DecidableEq, Repr

/-- The path of a location. -/
def Location.path (location : Location) : Path := ⟨'/' :: Path.ofPieces location⟩

namespace Setup

/-- The configuration that counts, with the path of its file. -/
def configFor (tree : FileTree) (working : Location) (line : CommandLine) :
    Except ConfigError (Option Path × Config) :=
  if line.noConfig then .ok (none, .empty)
  else
    match line.config with
    | some path => do
        let config ← Config.load tree working path
        return (some path, config)
    | none => do
        match ← Config.search tree working (Location.path working) with
        | some (path, config) => return (some path, config)
        | none => return (none, .empty)

/-- The format that is asked for, on the command line or else in the file. -/
def formatFor (line : CommandLine) (config : Config) : Except SetupError ReportFormat :=
  if line.json then .ok .json
  else
    let name := (line.format.or config.format).getD "text"
    match ReportFormat.ofName? name with
    | some format => .ok format
    | none => .error (.format name)

/-- What the command line comes to. -/
def ofCommandLine (tree : FileTree) (working : Location) (line : CommandLine) :
    Except SetupError Setup := do
  let (configPath, config) ← (configFor tree working line).mapError .config
  let format ← formatFor line config
  let rule ← (config.ruleConfig line.overrides).mapError .rule
  let lineEnding ← (config.lineEndingFor line.lineEnding).mapError .lineEnding
  return ⟨configPath, config, format, rule, lineEnding⟩

end Setup

/-- How a maximum is shown. -/
def Maximum.shown : Maximum → String
  | flat cap => s!"Flat({cap})"
  | split single multi => s!"Split \x7b single: {single}, multi: {multi} \x7d"

/-- What a run leaves behind. -/
structure Outcome where
  output : Output
  exitCode : Nat
  tree : FileTree
deriving DecidableEq, Repr

namespace Run

/-- What a path on the command line leads to. -/
inductive Found where
  | dumps (paths : List Path)
  | missing (path : Path)
deriving DecidableEq, Repr

/-- The dumps that a path leads to: the file itself, whatever it is called, or the dumps
    below a directory that are not excluded. -/
def find (tree : FileTree) (working : Location) (config : Config) (path : Path) : Found :=
  if tree.isFile working path then .dumps [path]
  else if tree.isDirectory working path then
    .dumps ((tree.walk working path).filter fun path =>
      Dump.isDump path && !config.excludes path)
  else .missing path

/-- The dumps among what was found. -/
def Found.dumpPaths : Found → List Path
  | dumps paths => paths
  | missing _ => []

/-- The path that leads nowhere, if it does. -/
def Found.missingPath? : Found → Option Path
  | dumps _ => none
  | missing path => some path

/-- A dump with what came out of it. -/
structure Result where
  dump : Path
  inspection : Except InspectionError Inspection

/-- Inspect the dump at a path. -/
def inspect (tree : FileTree) (working : Location) (setup : Setup) (path : Path) : Result :=
  ⟨path, Inspection.ofDump tree working setup.rule setup.lineEnding path⟩

/-- Inspect dumps, in the order of their paths. Of equal paths the order is kept. -/
def inspectAll (tree : FileTree) (working : Location) (setup : Setup) (paths : List Path) :
    List Result :=
  (paths.map (inspect tree working setup)).mergeSort fun first second =>
    first.dump.compare second.dump != .gt

/-- What is told about a file that cannot be written. -/
def writeErrorMessage (path : Path) (error : FileError) : String :=
  s!"Failed to write file: {path}: {error.message}"

/-- What is told about a result, and the tree that is left behind. A run that fixes writes the
    new source, if there is one. -/
def Result.settle (result : Result) (tree : FileTree) (working : Location) (fixing : Bool) :
    Reporter.FileEvent × FileTree :=
  match result.inspection with
  | .error error => (.error result.dump error.message, tree)
  | .ok inspection =>
      let path := inspection.sourcePath
      match inspection.newSource with
      | none => (.clean path, tree)
      | some newSource =>
          if fixing then
            match tree.write working path newSource with
            | .ok written => (.fix path inspection.findings, written)
            | .error error => (.error path (writeErrorMessage path error), tree)
          else (.check path inspection.findings inspection.oldSource newSource, tree)

/-- Settle results in order, each in the tree that the one before it leaves behind. -/
def settleAll (tree : FileTree) (working : Location) (fixing : Bool) :
    List Result → List Reporter.FileEvent × FileTree
  | [] => ([], tree)
  | result :: results =>
      let (event, after) := result.settle tree working fixing
      let (events, last) := settleAll after working fixing results
      (event :: events, last)

/-- What a verbose run says about itself before anything else. -/
def preamble (reporter : Reporter) (setup : Setup) (fixing : Bool) : Output :=
  let entry (label value : String) : Output :=
    .line (reporter.styled .bold label ++ s!": {value}".toList)
  let used := match setup.configPath with
    | some path => entry "Using config" (toString path)
    | none => .empty
  used ++ entry "Mode" (if fixing then "fix" else "check") ++
    entry "Maximum" s!"{setup.rule.maximum.shown}, when {setup.rule.scope.name}" ++ Output.line []

/-- The exit code for the counts of a run. -/
def exitCode (summary : Summary) (fixing : Bool) : Nat :=
  if 0 < summary.errors then 1
  else if !fixing ∧ 0 < summary.filesWithViolations then 2
  else 0

/-- A run whose setup is done. -/
def withSetup (tree : FileTree) (working : Location) (coloured : Bool) (line : CommandLine)
    (setup : Setup) : Outcome :=
  let found := line.paths.map (find tree working setup.config)
  let results := inspectAll tree working setup (found.flatMap Found.dumpPaths)
  let reporter := Reporter.start setup.format line.verbose coloured
  let front :=
    if line.verbose ∧ setup.format = .text then preamble reporter setup line.fix else .empty
  let warnings :=
    if setup.format = .text then
      Output.concat ((found.filterMap Found.missingPath?).map fun path =>
        .warning (reporter.styled .yellow "Warning" ++ s!": Path does not exist: {path}".toList))
    else .empty
  let (events, after) := settleAll tree working line.fix results
  let (told, report) := reporter.tellAll events
  { output := front ++ warnings ++ report ++ told.finish (!line.fix)
    exitCode := exitCode told.summary line.fix
    tree := after }

/-- A run with a command line. -/
def ofCommandLine (tree : FileTree) (working : Location) (coloured : Bool) (line : CommandLine) :
    Outcome :=
  match Setup.ofCommandLine tree working line with
  | .ok setup => withSetup tree working coloured line setup
  | .error error =>
      { output := .warning (Style.red.paint coloured "Error".toList ++ s!": {error.message}".toList)
        exitCode := 1
        tree }

/-- The name of the program. -/
def programName : String := "propline"

/-- What is said about the arguments on demand. -/
def helpText : String :=
  "Keep JSX props within a per-line limit\n\nUsage: propline [OPTIONS] <PATHS>...\n\nOptions:\n" ++
    String.join ((Argument.named.map Argument.shown).map fun shown => s!"  {shown}\n")

/-- A run with arguments as they are given. -/
def ofArguments (tree : FileTree) (working : Location) (coloured : Bool) (arguments : List Text) :
    Outcome :=
  match CommandLine.parse arguments with
  | .ok (.run line) => ofCommandLine tree working coloured line
  | .ok .version => ⟨.line s!"{programName} {Reporter.version}".toList, 0, tree⟩
  | .ok .help => ⟨.text helpText.toList, 0, tree⟩
  | .error error => ⟨.warning s!"error: {error.message}".toList, 2, tree⟩

end Run

end TagWrap
