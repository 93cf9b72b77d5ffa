import TagWrap.Glob
import TagWrap.Path

/-!
# Excluded paths

A list of patterns says which dumps of a directory are left out. A pattern excludes a
path when it stands for the path or for the name at its end. A pattern that ends in a
slash also excludes all that lies below a directory of that name. A pattern that is
invalid excludes nothing, unless it ends in a slash.
-/
namespace TagWrap.Exclusion

/-- Whether a text occurs in another one. -/
def occursIn (part : Text) : Text → Bool
  | [] => part.isEmpty
  | char :: rest => part.isPrefixOf (char :: rest) || occursIn part rest

/-- Whether the glob pattern stands for the path or for the name at its end. -/
def excludedByGlob (pattern : Text) (path : Path) : Bool :=
  match Glob.tokens? pattern with
  | none => false
  | some tokens =>
      Glob.matchesText tokens path.text ||
        match path.fileName? with
        | some name => Glob.matchesText tokens name
        | none => false

/-- The directory that a pattern names, if it ends in a slash. -/
def directory? (pattern : Text) : Option Text :=
  if pattern.getLast? = some '/' then some (pattern.reverse.dropWhile (· == '/')).reverse
  else none

/-- Whether the path lies below a directory. -/
def below (directory : Text) (path : Path) : Bool :=
  occursIn ('/' :: directory ++ ['/']) path.text || (directory ++ ['/']).isPrefixOf path.text

/-- Whether a pattern excludes a path. -/
def excludedBy (path : Path) (pattern : Text) : Bool :=
  excludedByGlob pattern path ||
    match directory? pattern with
    | some directory => below directory path
    | none => false

/-- Whether one of the patterns excludes a path. -/
def excludes (patterns : List Text) (path : Path) : Bool := patterns.any (excludedBy path)

end TagWrap.Exclusion
