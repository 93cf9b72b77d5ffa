import TagWrap.Run

/-!
# The program

The program looks at as much of the disk as a run can ask for: the configuration file,
the paths on the command line with the dumps below them, and the sources of the dumps.
What the run leaves behind is compared with what was there, and changed files are
written. Where the system refuses that, the report is that of a run in which these files
are guarded, which leaves all others as they were written.
-/
namespace TagWrap.Disk

/-- What was seen of the disk. -/
structure Seen where
  directories : List Location
  files : List (Location × Content)

/-- What was seen, as a file tree. -/
def Seen.tree (seen : Seen) : FileTree := .ofEntries seen.directories seen.files

/-- One piece further along a path. -/
def follow (location : Location) (piece : Text) : Location :=
  if Path.isIdle piece then location
  else if piece = ['.', '.'] then location.dropLast
  else location ++ [piece]

/-- The locations that a path passes, up to the one that it leads to. -/
def passed (working : Location) (path : Path) : List Location :=
  let start := if path.isAbsolute then [] else working
  let pieces := Path.pieces path.text
  (List.range (pieces.length + 1)).map fun count => (pieces.take count).foldl follow start

/-- The location that a path leads to. -/
def target (working : Location) (path : Path) : Location := (passed working path).getLastD working

/-- The name of a location for the operating system. -/
def nameOf (location : Location) : String := toString (Location.path location)

/-- See the file at a location, if there is one. -/
def seeFile (seen : Seen) (location : Location) : IO Seen := do
  if seen.files.any (·.1 == location) then return seen
  match ← (IO.FS.readBinFile (nameOf location)).toBaseIO with
  | .ok bytes => return { seen with files := (location, .ofBytes bytes) :: seen.files }
  | .error _ => return seen

/-- See the dumps below a directory. Links are not followed. -/
partial def seeBelow (seen : Seen) (location : Location) : IO Seen := do
  let here ← IO.currentDir
  match ← (here / nameOf location).readDir.toBaseIO with
  | .error _ => return seen
  | .ok entries =>
      let mut seen := { seen with directories := location :: seen.directories }
      for entry in entries do
        let inner := location ++ [entry.fileName.toList]
        match ← entry.path.symlinkMetadata.toBaseIO with
        | .error _ => pure ()
        | .ok metadata =>
            if metadata.type == .dir then seen ← seeBelow seen inner
            else if metadata.type == .file ∧ Dump.isDump (Location.path inner) then
              seen ← seeFile seen inner
      return seen

/-- See the directories that a path passes, and the file that it leads to. -/
def seePath (working : Location) (path : Path) (seen : Seen) : IO Seen := do
  let here ← IO.currentDir
  let mut seen := seen
  for location in passed working path do
    if ← (here / nameOf location).isDir then
      seen := { seen with directories := location :: seen.directories }
  seeFile seen (target working path)

/-- See what a run with a command line can ask for. -/
def see (working : Location) (line : CommandLine) : IO Seen := do
  let mut seen : Seen := ⟨[working], []⟩
  if !line.noConfig then
    match line.config with
    | some path => seen ← seePath working path seen
    | none =>
        for depth in List.range (working.length + 1) do
          let candidate := (Location.path (working.take depth)).join (.ofString Config.fileName)
          seen ← seePath working candidate seen
  for path in line.paths do
    seen ← seePath working path seen
    seen ← seeBelow seen (target working path)
  for (location, content) in seen.files do
    match content with
    | .binary _ => pure ()
    | .text text =>
        match Json.decodeText Dump.decode text with
        | .error _ => pure ()
        | .ok dump => seen ← seePath working (dump.sourcePath (Location.path location)) seen
  return seen

/-- Why the system refuses to write a file. -/
def refusalOf : IO.Error → FileError
  | .alreadyExists _ code details | .inappropriateType _ code details
  | .interrupted _ code details | .invalidArgument _ code details
  | .noFileOrDirectory _ code details | .noSuchThing _ code details
  | .permissionDenied _ code details | .resourceExhausted _ code details
  | .hardwareFault code details | .illegalOperation code details
  | .otherError code details | .protocolError code details | .resourceBusy code details
  | .resourceVanished code details | .timeExpired code details
  | .unsatisfiedConstraints code details | .unsupportedOperation code details =>
      .refused details code.toNat
  | .unexpectedEof => .refused "unexpected end of file" 0
  | .userError message => .refused message 0

/-- Write the files that one tree has with other content than another, and return those that
    cannot be written. -/
def writeChanges (before after : FileTree) : IO (List (Location × FileError)) := do
  let mut guards := []
  for (location, entry) in after.entries do
    match entry with
    | .file (.text text) =>
        if before.entry? location ≠ some entry then
          match ← (IO.FS.writeFile (nameOf location) (String.ofList text)).toBaseIO with
          | .ok () => pure ()
          | .error error => guards := (location, refusalOf error) :: guards
    | _ => pure ()
  return guards

/-- Whether the environment wants colours. -/
def coloured : IO Bool := do
  let terminal ← (← IO.getStdout).isTty
  return Style.wanted terminal (← IO.getEnv "CLICOLOR_FORCE") (← IO.getEnv "NO_COLOR")
    (← IO.getEnv "CLICOLOR")

/-- Run with arguments, and return the exit code. -/
def run (arguments : List Text) : IO Nat := do
  let working := target [] (.ofString (toString (← IO.currentDir)))
  let seen ← match CommandLine.parse arguments with
    | .ok (.run line) => see working line
    | _ => pure ⟨[working], []⟩
  let coloured ← coloured
  let planned := Run.ofArguments seen.tree working coloured arguments
  let guards ← writeChanges seen.tree planned.tree
  let outcome :=
    if guards.isEmpty then planned
    else Run.ofArguments { seen.tree with guards } working coloured arguments
  IO.print (String.ofList outcome.output.stdout)
  IO.eprint (String.ofList outcome.output.stderr)
  return outcome.exitCode

end TagWrap.Disk

/-- Check the sources of dumps, and mend them on demand. -/
def main (arguments : List String) : IO UInt32 := do
  let code ← TagWrap.Disk.run (arguments.map String.toList)
  return UInt32.ofNat code
