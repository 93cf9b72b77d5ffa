import TagWrap.Text.Offset

/-!
# Paths

A path is a text in which slashes separate pieces. Pieces that are empty or a single
dot say nothing, except for a dot at the start of a relative path. What is left are the
components, and paths are ordered by their components. A path is otherwise kept as it
was written, since messages repeat it.
-/
namespace TagWrap

/-- A path as it was written. -/
structure Path where
  text : Text
deriving DecidableEq, Repr

instance : ToString Path := ⟨fun path => String.ofList path.text⟩

namespace Path

/-- The path that a string writes. -/
def ofString (text : String) : Path := ⟨text.toList⟩

/-- The pieces of a text between slashes. An empty text has one empty piece. -/
def pieces : Text → List Text
  | [] => [[]]
  | char :: rest =>
      if char = '/' then [] :: pieces rest
      else
        match pieces rest with
        | [] => [[char]]
        | piece :: others => (char :: piece) :: others

/-- The text whose pieces are given. -/
def ofPieces : List Text → Text
  | [] => []
  | [piece] => piece
  | piece :: others => piece ++ '/' :: ofPieces others

/-- Whether a path starts at the root. -/
def isAbsolute (path : Path) : Bool := path.text.head? == some '/'

/-- A meaningful part of a path. -/
inductive Component where
  | root
  | current
  | parent
  | name (text : Text)
deriving DecidableEq, Repr

/-- What a piece in the middle of a path means, if anything. -/
def componentOf? (piece : Text) : Option Component :=
  if piece = [] ∨ piece = ['.'] then none
  else if piece = ['.', '.'] then some .parent
  else some (.name piece)

/-- The components of a path. -/
def components (path : Path) : List Component :=
  let front := if path.isAbsolute then [Component.root]
    else if (pieces path.text).head? = some ['.'] then [.current]
    else []
  front ++ (pieces path.text).filterMap componentOf?

/-- Compare texts by their characters. The order of characters is that of their
    encodings. -/
def compareText : Text → Text → Ordering
  | [], [] => .eq
  | [], _ :: _ => .lt
  | _ :: _, [] => .gt
  | first :: firsts, second :: seconds =>
      (compare first.toNat second.toNat).then (compareText firsts seconds)

/-- The place of a kind of component in their order. -/
def Component.rank : Component → Nat
  | root => 0
  | current => 1
  | parent => 2
  | name _ => 3

/-- Compare components: by their kind, and names by their characters. -/
def Component.compare : Component → Component → Ordering
  | name first, name second => compareText first second
  | first, second => Ord.compare first.rank second.rank

/-- Compare lists of components. -/
def compareComponents : List Component → List Component → Ordering
  | [], [] => .eq
  | [], _ :: _ => .lt
  | _ :: _, [] => .gt
  | first :: firsts, second :: seconds =>
      (first.compare second).then (compareComponents firsts seconds)

/-- Compare paths by their components. -/
def compare (first second : Path) : Ordering :=
  compareComponents first.components second.components

/-- The name at the end of a path, if it ends in one. -/
def fileName? (path : Path) : Option Text :=
  match path.components.getLast? with
  | some (.name name) => some name
  | _ => none

/-- Whether a piece says nothing. -/
def isIdle (piece : Text) : Bool := piece == [] || piece == ['.']

/-- The start of a path that is kept whatever pieces are dropped, and the rest: the
    slash of an absolute path, or a dot that is the first piece of a relative one. -/
def splitFront (path : Path) : Text × Text :=
  match path.text with
  | '/' :: rest => (['/'], rest)
  | ['.'] => (['.'], [])
  | '.' :: '/' :: rest => (['.'], '/' :: rest)
  | other => ([], other)

/-- A path without its last component. The root and the empty path have no parent. -/
def parent? (path : Path) : Option Path :=
  let (front, body) := path.splitFront
  match (pieces body).reverse.dropWhile isIdle with
  | _ :: others => some ⟨front ++ ofPieces (others.dropWhile isIdle).reverse⟩
  | [] => if front = ['.'] then some ⟨[]⟩ else none

/-- A path seen from a directory. A path from the root stays as it is. -/
def join (directory path : Path) : Path :=
  if path.isAbsolute then path
  else if directory.text = [] ∨ directory.text.getLast? = some '/' then
    ⟨directory.text ++ path.text⟩
  else ⟨directory.text ++ '/' :: path.text⟩

/-- Pieces of a text make it up again. -/
theorem ofPieces_pieces (text : Text) : ofPieces (pieces text) = text := by
  induction text with
  | nil => rfl
  | cons char rest inductionHypothesis =>
      have some_piece : pieces rest ≠ [] := by
        cases rest with
        | nil => simp [pieces]
        | cons next others =>
            simp only [pieces]
            split
            · simp
            · split <;> simp
      simp only [pieces]
      split
      next slash =>
        cases split_rest : pieces rest with
        | nil => exact absurd split_rest some_piece
        | cons piece others =>
            simp [ofPieces, slash, ← split_rest, inductionHypothesis]
      next =>
        cases split_rest : pieces rest with
        | nil => exact absurd split_rest some_piece
        | cons piece others =>
            rw [split_rest] at inductionHypothesis
            cases others with
            | nil => simpa [ofPieces] using inductionHypothesis
            | cons next later => simpa [ofPieces] using inductionHypothesis

end Path

end TagWrap
