import TagWrap.Path

/-!
# File trees

A file tree is what a run finds on disk: directories and files with their content, each
at its location from the root. Content is text, or bytes that are not the encoding of
any text. The order of the entries is the order in which a directory is walked.

A path is followed piece by piece. Whatever comes before a piece must be a directory,
so a slash behind a file leads nowhere.

A file may be guarded against writing. A write is refused before it begins, and then the
file stays as it is, or else it succeeds as a whole.
-/
namespace TagWrap

/-- The names that lead from the root to an entry. -/
abbrev Location := List Text

/-- What a file holds. -/
inductive Content where
  | text (text : Text)
  | binary (bytes : List UInt8)
deriving DecidableEq, Repr

/-- What bytes stand for: the text that they encode, or themselves. -/
def Content.ofBytes (bytes : ByteArray) : Content :=
  match String.fromUTF8? bytes with
  | some string => .text string.toList
  | none => .binary bytes.toList

/-- A place that is taken in a file tree. -/
inductive Entry where
  | directory
  | file (content : Content)
deriving DecidableEq, Repr

/-- Why a file cannot be read or written. -/
inductive FileError where
  | notFound
  | notADirectory
  | isADirectory
  | notText
  | nulInPath
  | nameTooLong
  /-- The system refuses, in its own words and with their number. -/
  | refused (reason : String) (code : Nat)
deriving DecidableEq, Repr

/-- The wording of an error. -/
def FileError.message : FileError → String
  | notFound => "No such file or directory (os error 2)"
  | notADirectory => "Not a directory (os error 20)"
  | isADirectory => "Is a directory (os error 21)"
  | notText => "stream did not contain valid UTF-8"
  | nulInPath => "file name contained an unexpected NUL byte"
  | nameTooLong => "File name too long (os error 36)"
  | refused reason code => s!"{reason} (os error {code})"

/-- Directories and files by their location. The root is always a directory. -/
structure FileTree where
  entries : List (Location × Entry)
  /-- The files that cannot be written, each with the reason. -/
  guards : List (Location × FileError)
deriving DecidableEq, Repr

namespace FileTree

/-- The directories above a location, from the root down, without the root. -/
def ancestors (location : Location) : List Location :=
  (List.range location.length).drop 1 |>.map location.take

/-- The tree of some directories and files. The directories above them exist too, and all
    files can be written. -/
def ofEntries (directories : List Location) (files : List (Location × Content)) : FileTree :=
  let above := directories ++ directories.flatMap ancestors ++
    files.flatMap fun file => ancestors file.1
  ⟨above.eraseDups.map (·, .directory) ++ files.map fun file => (file.1, .file file.2), []⟩

/-- The entry at a location. -/
def entry? (tree : FileTree) (location : Location) : Option Entry :=
  if location = [] then some .directory
  else (tree.entries.find? (·.1 = location)).map (·.2)

/-- The reason why the file at a location cannot be written, if there is one. -/
def guard? (tree : FileTree) (location : Location) : Option FileError :=
  (tree.guards.find? (·.1 = location)).map (·.2)

/-- Follow pieces of a path from a location. -/
def follow (tree : FileTree) : Location → List Text → Except FileError Location
  | location, [] => .ok location
  | location, piece :: pieces =>
      match tree.entry? location with
      | some .directory =>
          if Path.isIdle piece then follow tree location pieces
          else if piece = ['.', '.'] then follow tree location.dropLast pieces
          else if 255 < Text.byteSize piece then .error .nameTooLong
          else
            match tree.entry? (location ++ [piece]) with
            | some _ => follow tree (location ++ [piece]) pieces
            | none => .error .notFound
      | _ => .error .notADirectory

/-- The location that a path leads to from a working directory. -/
def locate (tree : FileTree) (working : Location) (path : Path) : Except FileError Location :=
  if path.text.contains '\x00' then .error .nulInPath
  else if path.text = [] then .error .notFound
  else if 4096 ≤ Text.byteSize path.text then .error .nameTooLong
  else tree.follow (if path.isAbsolute then [] else working) (Path.pieces path.text)

/-- The entry that a path leads to. -/
def lookup (tree : FileTree) (working : Location) (path : Path) : Except FileError Entry := do
  let location ← tree.locate working path
  match tree.entry? location with
  | some entry => return entry
  | none => throw .notFound

/-- Whether a path leads to a file. -/
def isFile (tree : FileTree) (working : Location) (path : Path) : Bool :=
  match tree.lookup working path with
  | .ok (.file _) => true
  | _ => false

/-- Whether a path leads to a directory. -/
def isDirectory (tree : FileTree) (working : Location) (path : Path) : Bool :=
  match tree.lookup working path with
  | .ok .directory => true
  | _ => false

/-- Whether a path leads anywhere. -/
def pathExists (tree : FileTree) (working : Location) (path : Path) : Bool :=
  (tree.lookup working path).isOk

/-- The text of the file that a path leads to. -/
def readText (tree : FileTree) (working : Location) (path : Path) : Except FileError Text := do
  match ← tree.lookup working path with
  | .directory => throw .isADirectory
  | .file (.text text) => return text
  | .file (.binary _) => throw .notText

/-- The names that lead from one location to another below it. -/
def below? : Location → Location → Option Location
  | [], location => if location = [] then none else some location
  | name :: names, other :: others => if name = other then below? names others else none
  | _ :: _, [] => none

/-- The paths of the files below a directory, in the order of the entries. -/
def walk (tree : FileTree) (working : Location) (directory : Path) : List Path :=
  match tree.locate working directory with
  | .error _ => []
  | .ok location =>
      tree.entries.filterMap fun (other, entry) =>
        match entry, below? location other with
        | .file _, some names => some (names.foldl (fun path name => path.join ⟨name⟩) directory)
        | _, _ => none

/-- Open the file that a path leads to for writing. Only a file that is there is opened. -/
def openFile (tree : FileTree) (working : Location) (path : Path) :
    Except FileError Location := do
  let location ← tree.locate working path
  match tree.entry? location, tree.guard? location with
  | none, _ => throw .notFound
  | some .directory, _ => throw .isADirectory
  | some (.file _), some reason => throw reason
  | some (.file _), none => return location

/-- The tree after the file at a location was written. -/
def writeAt (tree : FileTree) (location : Location) (text : Text) : FileTree :=
  { tree with entries := tree.entries.map fun (other, entry) =>
      if other = location then (other, .file (.text text)) else (other, entry) }

/-- The tree after the file that a path leads to was written. -/
def write (tree : FileTree) (working : Location) (path : Path) (text : Text) :
    Except FileError FileTree := do
  let location ← tree.openFile working path
  return tree.writeAt location text

end FileTree

end TagWrap
