import TagWrap.Path
import TagWrap.RuleOptions
import TagWrap.Text.Control
import TagWrap.Word

/-!
# The command line

Arguments are read from the first to the last, and the first mistake in them decides the
error. A setting that still lacks its value, and a value whose meaning is not yet looked
at, wait until the next argument of another kind. A switch or a setting that is not
known is refused before what waits is looked at. Arguments that exclude each other, and
missing paths, are noticed at the end.
-/
namespace TagWrap

/-- Arguments without a value. -/
inductive Switch where
  | check
  | fix
  | verbose
  | json
  | noConfig
deriving DecidableEq, Repr

/-- Arguments with a value. -/
inductive Setting where
  | maximum
  | single
  | multi
  | scope
  | lineEnding
  | format
  | config
deriving DecidableEq, Repr

/-- What can stand on the command line. -/
inductive Argument where
  | switch (switch : Switch)
  | setting (setting : Setting)
  | paths
  | help
  | version
deriving DecidableEq, Repr

namespace Argument

/-- The long name of an argument. -/
def longName : Argument → String
  | switch .check => "check"
  | switch .fix => "fix"
  | switch .verbose => "verbose"
  | switch .json => "json"
  | switch .noConfig => "no-config"
  | setting .maximum => "maximum"
  | setting .single => "single"
  | setting .multi => "multi"
  | setting .scope => "when"
  | setting .lineEnding => "line-ending"
  | setting .format => "format"
  | setting .config => "config"
  | paths => "PATHS"
  | help => "help"
  | version => "version"

/-- The arguments that are given by a long name. -/
def named : List Argument :=
  [switch .check, switch .fix, switch .verbose, switch .json, switch .noConfig, setting .maximum,
    setting .single, setting .multi, setting .scope, setting .lineEnding, setting .format,
    setting .config, help, version]

/-- The argument with a long name. -/
def ofLongName? (name : String) : Option Argument := named.find? (·.longName == name)

/-- The argument with a short name. -/
def ofShortName? : Char → Option Argument
  | 'v' => some (switch .verbose)
  | 'h' => some help
  | 'V' => some version
  | _ => none

/-- What the value of a setting is called. -/
def valueName : Setting → String
  | .maximum => "N"
  | .single => "N"
  | .multi => "N"
  | .scope => "WHEN"
  | .lineEnding => "EOL"
  | .format => "FORMAT"
  | .config => "PATH"

/-- How a message names an argument. -/
def shown (argument : Argument) : String :=
  match argument with
  | setting which => s!"--{argument.longName} <{valueName which}>"
  | paths => "<PATHS>..."
  | _ => s!"--{argument.longName}"

/-- Whether an argument rules out another one by its definition. -/
def rulesOut : Argument → Argument → Bool
  | switch .check, switch .fix => true
  | switch .fix, switch .check => true
  | setting .maximum, setting .single => true
  | setting .maximum, setting .multi => true
  | switch .json, setting .format => true
  | _, _ => false

/-- Whether two arguments exclude each other. -/
def excludes (first second : Argument) : Bool := first.rulesOut second || second.rulesOut first

end Argument

/-- Why a value is no integer of 64 bits with a sign. -/
inductive IntegerError where
  | empty
  | invalidDigit
  | tooLarge
  | tooSmall
deriving DecidableEq, Repr

/-- The wording of an error. -/
def IntegerError.message : IntegerError → String
  | empty => "cannot parse integer from empty string"
  | invalidDigit => "invalid digit found in string"
  | tooLarge => "number too large to fit in target type"
  | tooSmall => "number too small to fit in target type"

/-- Extend an integer by digits, away from zero, for as long as it fits. The first digit
    that is none or is too much decides the error. -/
def extendInteger (negative : Bool) : Int → Text → Except IntegerError Int
  | value, [] => .ok value
  | value, char :: rest =>
      if !char.isDigit then .error .invalidDigit
      else
        let digit : Int := char.toNat - '0'.toNat
        let next := if negative then value * 10 - digit else value * 10 + digit
        if next < -Word.limit then .error .tooSmall
        else if Word.limit ≤ next then .error .tooLarge
        else extendInteger negative next rest

/-- The integer that a text writes. A sign needs a digit behind it. -/
def parseInteger (text : Text) : Except IntegerError Int :=
  match text with
  | [] => .error .empty
  | ['+'] => .error .invalidDigit
  | ['-'] => .error .invalidDigit
  | '+' :: digits => extendInteger false 0 digits
  | '-' :: digits => extendInteger true 0 digits
  | digits => extendInteger false 0 digits

/-- What is wrong with a command line. -/
inductive UsageError where
  | unknown (argument : String)
  /-- A value where none is taken. -/
  | surplusValue (value : String) (argument : Argument)
  | missingValue (argument : Argument)
  | invalidValue (value : String) (argument : Argument) (reason : String)
  | repeated (argument : Argument)
  | conflict (argument : Argument) (others : List Argument)
  | missingPaths
deriving DecidableEq, Repr

/-- The wording of an error. What was given is repeated without controls, so that it
    cannot act on the terminal. -/
def UsageError.message : UsageError → String
  | unknown argument =>
      let shown := withoutControls argument
      s!"unexpected argument '{shown}' found"
  | surplusValue value argument =>
      let shown := withoutControls value
      s!"unexpected value '{shown}' for '{argument.shown}' found; no more were expected"
  | missingValue argument =>
      s!"a value is required for '{argument.shown}' but none was supplied"
  | invalidValue value argument reason =>
      let shown := withoutControls value
      s!"invalid value '{shown}' for '{argument.shown}': {reason}"
  | repeated argument => s!"the argument '{argument.shown}' cannot be used multiple times"
  | conflict argument [other] =>
      s!"the argument '{argument.shown}' cannot be used with '{other.shown}'"
  | conflict argument others =>
      s!"the argument '{argument.shown}' cannot be used with:" ++
        String.join (others.map fun other => s!"\n  {other.shown}")
  | missingPaths =>
      s!"the following required arguments were not provided:\n  {Argument.paths.shown}"

/-- What a command line asks for. -/
structure CommandLine where
  paths : List Path
  check : Bool
  fix : Bool
  verbose : Bool
  json : Bool
  noConfig : Bool
  overrides : RuleOverrides
  lineEnding : Option String
  format : Option String
  config : Option Path
deriving DecidableEq, Repr

/-- A command line as it is meant. -/
inductive Invocation where
  | run (line : CommandLine)
  | help
  | version
deriving DecidableEq, Repr

namespace CommandLine

/-- A command line without arguments. -/
def empty : CommandLine := ⟨[], false, false, false, false, false, .empty, none, none, none⟩

/-- What waits to be looked at. -/
inductive Waiting where
  | nothing
  /-- A setting that still lacks its value. -/
  | setting (setting : Setting)
  /-- A setting with its value. -/
  | value (setting : Setting) (value : Text)
  /-- Paths that stand next to each other. -/
  | paths (paths : List Text)
deriving DecidableEq, Repr

/-- How far the arguments are read. -/
structure Reading where
  line : CommandLine
  /-- The arguments that occur, in the order in which each was met first. -/
  given : List Argument
  waiting : Waiting
deriving DecidableEq, Repr

/-- Why reading stops before the end. -/
inductive Stop where
  | error (error : UsageError)
  | help
  | version
deriving DecidableEq, Repr

/-- The integer that the value of a setting writes. -/
def integerFor (setting : Setting) (value : Text) : Except Stop Int :=
  (parseInteger value).mapError fun error =>
    .error (.invalidValue (String.ofList value) (.setting setting) error.message)

/-- The command line with a setting set. -/
def set (line : CommandLine) (setting : Setting) (value : Text) : Except Stop CommandLine :=
  let string := String.ofList value
  let overrides := line.overrides
  match setting with
  | .maximum => do
      let number ← integerFor setting value
      return { line with overrides := { overrides with maximum := some number } }
  | .single => do
      let number ← integerFor setting value
      return { line with overrides := { overrides with single := some number } }
  | .multi => do
      let number ← integerFor setting value
      return { line with overrides := { overrides with multi := some number } }
  | .scope =>
      match Scope.ofName? string with
      | some scope => .ok { line with overrides := { overrides with scope := some scope } }
      | none =>
          .error (.error (.invalidValue string (.setting setting) (unknownScopeMessage string)))
  | .lineEnding => .ok { line with lineEnding := some string }
  | .format => .ok { line with format := some string }
  | .config =>
      if value.isEmpty then .error (.error (.missingValue (.setting setting)))
      else .ok { line with config := some ⟨value⟩ }

/-- The command line with a switch on. -/
def turnOn (line : CommandLine) : Switch → CommandLine
  | .check => { line with check := true }
  | .fix => { line with fix := true }
  | .verbose => { line with verbose := true }
  | .json => { line with json := true }
  | .noConfig => { line with noConfig := true }

namespace Reading

/-- Before the first argument. -/
def start : Reading := ⟨.empty, [], .nothing⟩

/-- Note that an argument occurs, unless it did before. -/
def note (reading : Reading) (argument : Argument) : Except Stop Reading :=
  if argument ∈ reading.given then .error (.error (.repeated argument))
  else .ok { reading with given := reading.given ++ [argument] }

/-- Give a setting its value. -/
def assign (reading : Reading) (setting : Setting) (value : Text) : Except Stop Reading := do
  let reading ← reading.note (.setting setting)
  let line ← reading.line.set setting value
  return { reading with line }

/-- Add paths. No path is empty. -/
def addPaths (reading : Reading) (paths : List Text) : Except Stop Reading :=
  if paths.any List.isEmpty then .error (.error (.missingValue .paths))
  else
    let given :=
      if Argument.paths ∈ reading.given then reading.given else reading.given ++ [.paths]
    let line := { reading.line with paths := reading.line.paths ++ paths.map Path.mk }
    .ok { reading with line, given }

/-- Look at what waits. -/
def settle (reading : Reading) : Except Stop Reading :=
  let settled := { reading with waiting := .nothing }
  match reading.waiting with
  | .nothing => .ok settled
  | .setting setting => .error (.error (.missingValue (.setting setting)))
  | .value setting value => settled.assign setting value
  | .paths paths => settled.addPaths paths

/-- Read an argument that is given by its name, perhaps with a value attached. -/
def named (reading : Reading) (argument : Argument) (attached : Option Text) :
    Except Stop Reading :=
  match argument, attached with
  | .setting setting, some value => do (← reading.settle).assign setting value
  | .setting setting, none => do
      let reading ← reading.settle
      return { reading with waiting := .setting setting }
  | argument, some value => .error (.error (.surplusValue (String.ofList value) argument))
  | .switch switch, none => do
      let reading ← (← reading.settle).note (.switch switch)
      return { reading with line := reading.line.turnOn switch }
  | .help, none => do
      let _ ← reading.settle
      throw .help
  | .version, none => do
      let _ ← reading.settle
      throw .version
  | .paths, none => .ok reading

/-- Read an argument with a long name, from the text after its hyphens. -/
def long (reading : Reading) (text : Text) : Except Stop Reading :=
  let name := String.ofList (text.takeWhile (· != '='))
  let attached := match text.dropWhile (· != '=') with
    | _ :: value => some value
    | [] => none
  match Argument.ofLongName? name with
  | some argument => reading.named argument attached
  | none => .error (.error (.unknown s!"--{name}"))

/-- Read arguments with short names that follow one hyphen. -/
def short (reading : Reading) (names : Text) : Except Stop Reading :=
  names.foldlM
    (fun reading name =>
      match Argument.ofShortName? name with
      | some argument => reading.named argument none
      | none => .error (.error (.unknown (String.ofList ['-', name]))))
    reading

/-- Read a path. -/
def path (reading : Reading) (text : Text) : Except Stop Reading := do
  match reading.waiting with
  | .paths paths => return { reading with waiting := .paths (paths ++ [text]) }
  | _ =>
      let reading ← reading.settle
      return { reading with waiting := .paths [text] }

/-- Read a text that starts with no hyphen: a value, if a setting waits for one, or else a
    path. -/
def plain (reading : Reading) (text : Text) : Except Stop Reading :=
  match reading.waiting with
  | .setting setting => .ok { reading with waiting := .value setting text }
  | _ => reading.path text

/-- Read all arguments. After two hyphens by themselves there are only paths. -/
def all (reading : Reading) : List Text → Except Stop Reading
  | [] => reading.settle
  | ['-', '-'] :: paths => do (← paths.foldlM path reading).settle
  | ('-' :: '-' :: text) :: arguments => do all (← reading.long text) arguments
  | ['-'] :: arguments => do all (← reading.plain ['-']) arguments
  | ('-' :: names) :: arguments => do all (← reading.short names) arguments
  | text :: arguments => do all (← reading.plain text) arguments

/-- Refuse arguments that exclude each other. The first of them is named with all others
    that it cannot be used with. -/
def checkConflicts (given : List Argument) : List Argument → Except Stop Unit
  | [] => .ok ()
  | argument :: arguments =>
      match given.filter argument.excludes with
      | [] => checkConflicts given arguments
      | others => .error (.error (.conflict argument others))

/-- The command line of arguments that were all read. -/
def finish (reading : Reading) : Except Stop CommandLine := do
  checkConflicts reading.given reading.given
  if reading.line.paths.isEmpty then throw (.error .missingPaths)
  return reading.line

end Reading

/-- What arguments ask for. -/
def parse (arguments : List Text) : Except UsageError Invocation :=
  match (Reading.start.all arguments).bind Reading.finish with
  | .ok line => .ok (.run line)
  | .error .help => .ok .help
  | .error .version => .ok .version
  | .error (.error error) => .error error

end CommandLine

end TagWrap
