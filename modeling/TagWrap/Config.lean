import TagWrap.Data.Decode
import TagWrap.Exclusion
import TagWrap.FileTree
import TagWrap.Toml.Reader

/-!
# Configuration files

A configuration file holds the options of the rule, patterns for dumps to leave out, and
what the command line may leave open about the output. Unless one is named, it is looked
for in the working directory and then in each directory above. The nearest one counts,
and is not merged with any other.
-/
namespace TagWrap

/-- What a configuration file says. -/
structure Config where
  rule : RuleOptions
  /-- Patterns for dumps that are left out when a directory is searched. -/
  exclude : List String
  format : Option String
  lineEnding : Option String
deriving DecidableEq, Repr

/-- Why a configuration file cannot be used. -/
inductive ConfigError where
  | unreadable (path : Path) (error : FileError)
  /-- The text is no TOML. -/
  | malformed (path : Path)
  | decode (path : Path) (error : DecodeError)
deriving DecidableEq, Repr

namespace ConfigError

/-- What was being done when the error came up. -/
def context : ConfigError → String
  | unreadable path _ => s!"Failed to read {path}"
  | malformed path => s!"Failed to parse {path}"
  | decode path _ => s!"Failed to parse {path}"

/-- The wording of an error. What is wrong with a text is told only as far as its
    beginning: the place, the line that is quoted and the reason behind it are left out. -/
def message (error : ConfigError) : String :=
  match error with
  | unreadable _ cause => s!"{error.context}: {cause.message}"
  | malformed _ => s!"{error.context}: TOML parse error"
  | decode _ _ => s!"{error.context}: TOML parse error"

end ConfigError

/-- The wording for a name that is no line ending. -/
def unknownLineEndingMessage (name : String) : String :=
  s!"Invalid line ending '{name}'. Valid options: lf, crlf"

namespace Config

/-- What counts where no file is found. -/
def empty : Config := ⟨.empty, [], none, none⟩

/-- The name of a configuration file. -/
def fileName : String := ".propline.toml"

/-- The record of the section about paths. -/
def pathsRecord : Decode.Record Config where
  name := "PathsConfig"
  fields := ["exclude"]
  strict := false
  visit _ datum config := do
    let exclude ← Decode.list (Decode.string "a string") datum
    return { config with exclude }

/-- The record of the section about output. -/
def outputRecord : Decode.Record Config where
  name := "OutputConfig"
  fields := ["format", "line_ending"]
  strict := false
  visit field datum config := do
    let value ← Decode.optional (Decode.string "a string") datum
    return if field = "format" then { config with format := value }
      else { config with lineEnding := value }

/-- The record of a whole file. -/
def fileRecord : Decode.Record Config where
  name := "Config"
  fields := ["rule", "paths", "output"]
  strict := false
  visit field datum config :=
    if field = "rule" then do
      let rule ← Decode.ruleOptions datum
      return { config with rule }
    else if field = "paths" then do
      let (_, config) ← pathsRecord.read config datum
      return config
    else do
      let (_, config) ← outputRecord.read config datum
      return config

/-- What the text of a file says. -/
def ofText (path : Path) (text : Text) : Except ConfigError Config :=
  match Toml.document? text with
  | none => .error (.malformed path)
  | some datum => do
      let (_, config) ← (fileRecord.read empty datum).mapError (.decode path)
      return config

/-- What the file at a path says. -/
def load (tree : FileTree) (working : Location) (path : Path) : Except ConfigError Config := do
  let text ← (tree.readText working path).mapError (.unreadable path)
  ofText path text

/-- The path of the nearest file in a directory or above it. There are at most as many
    directories as the path has characters, and one more. -/
def findFrom (tree : FileTree) (working : Location) : Nat → Path → Option Path
  | 0, _ => none
  | fuel + 1, directory =>
      let candidate := directory.join (.ofString fileName)
      if tree.pathExists working candidate then some candidate
      else
        match directory.parent? with
        | some parent => findFrom tree working fuel parent
        | none => none

/-- The nearest file in a directory or above it, and what it says. -/
def search (tree : FileTree) (working : Location) (directory : Path) :
    Except ConfigError (Option (Path × Config)) :=
  match findFrom tree working (directory.text.length + 2) directory with
  | none => .ok none
  | some path => do
      let config ← load tree working path
      return some (path, config)

/-- Whether a dump is left out when a directory is searched. -/
def excludes (config : Config) (path : Path) : Bool :=
  Exclusion.excludes (config.exclude.map String.toList) path

/-- The configuration of the rule, with overrides laid over the options of the file. -/
def ruleConfig (config : Config) (overrides : RuleOverrides) : Except OutOfRange RuleConfig :=
  RuleConfig.ofOptions (overrides.apply config.rule)

/-- The line ending that is asked for by name, on the command line or else in the file,
    if it is. What comes back as an error is a name that is no line ending. -/
def lineEndingFor (config : Config) (name : Option String) :
    Except String (Option LineEnding) :=
  match name.or config.lineEnding with
  | none => .ok none
  | some name =>
      match LineEnding.ofName? name with
      | some lineEnding => .ok (some lineEnding)
      | none => .error name

end Config

end TagWrap
