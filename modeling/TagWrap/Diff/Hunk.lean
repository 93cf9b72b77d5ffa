import TagWrap.Diff.Slide

/-!
# Hunks

The changes of a script are shown with three kept lines around them. Changes that are
not further than six lines apart share a hunk. In a hunk the deleted lines of a change
stand before the inserted ones. Its header names the lines of either side by the number
of the first and their count, as the first and the last piece of the hunk have it.
-/
namespace TagWrap.Diff

/-- A part of a script: kept lines, or old lines with the new ones in their place. -/
structure Piece where
  kept : Bool
  old : Nat
  oldCount : Nat
  new : Nat
  newCount : Nat
deriving DecidableEq, Repr

namespace Piece

/-- The piece of a single step. -/
def ofStep (step : Step) : Piece :=
  match step.action with
  | .keep => ⟨true, step.old, step.count, step.new, step.count⟩
  | .delete => ⟨false, step.old, step.count, step.new, 0⟩
  | .insert => ⟨false, step.old, 0, step.new, step.count⟩

/-- Put a step in front of a piece that holds steps of the same kind. Either side starts
    with the first step that has lines there. -/
def cons (step : Step) (piece : Piece) : Piece :=
  match step.action with
  | .keep => ⟨true, step.old, step.count + piece.oldCount, step.new, step.count + piece.newCount⟩
  | .delete =>
      ⟨false, step.old, step.count + piece.oldCount,
        if piece.newCount = 0 then step.new else piece.new, piece.newCount⟩
  | .insert =>
      ⟨false, if piece.oldCount = 0 then step.old else piece.old, piece.oldCount,
        step.new, step.count + piece.newCount⟩

end Piece

/-- The pieces of a script. Steps that keep lines make up one piece, and so do steps that
    change lines. -/
def piecesOf : List Step → List Piece
  | [] => []
  | step :: steps =>
      match piecesOf steps with
      | piece :: pieces =>
          if piece.kept = (step.action == .keep) then piece.cons step :: pieces
          else .ofStep step :: piece :: pieces
      | [] => [.ofStep step]

/-- The pieces between two lists of lines. -/
def pieces (old new : List Text) : List Piece := piecesOf (slide old new (script old new))

/-- What a line of a diff says about its text. -/
inductive Mark where
  | kept
  | deleted
  | inserted
deriving DecidableEq, Repr

/-- The lines of a piece, the deleted ones first. -/
def Piece.lines (piece : Piece) (old new : List Text) : List (Mark × Text) :=
  let oldLines := (old.drop piece.old).take piece.oldCount
  let newLines := (new.drop piece.new).take piece.newCount
  if piece.kept then oldLines.map (.kept, ·)
  else oldLines.map (.deleted, ·) ++ newLines.map (.inserted, ·)

/-- The lines of all pieces between two texts. -/
def allLines (old new : Text) : List (Mark × Text) :=
  let oldLines := linesOf old
  let newLines := linesOf new
  (pieces oldLines newLines).flatMap (·.lines oldLines newLines)

/-! ## Grouping -/

/-- The number of kept lines that are shown around a change. -/
def radius : Nat := 3

/-- Kept lines without so many at their front. -/
def Piece.dropFront (piece : Piece) (count : Nat) : Piece :=
  ⟨piece.kept, piece.old + count, piece.oldCount - count, piece.new + count, piece.newCount - count⟩

/-- The first so many of kept lines. -/
def Piece.takeFront (piece : Piece) (count : Nat) : Piece :=
  { piece with oldCount := min piece.oldCount count, newCount := min piece.newCount count }

/-- The last so many of kept lines. -/
def Piece.takeBack (piece : Piece) (count : Nat) : Piece := piece.dropFront (piece.oldCount - count)

/-- Pieces with the kept lines at their start cut to what is shown. -/
def trimFront : List Piece → List Piece
  | piece :: pieces => (if piece.kept then piece.takeBack radius else piece) :: pieces
  | [] => []

/-- Pieces with the kept lines at their end cut to what is shown. -/
def trimBack : List Piece → List Piece
  | [] => []
  | [piece] => [if piece.kept then piece.takeFront radius else piece]
  | piece :: pieces => piece :: trimBack pieces

/-- Cut pieces where more lines are kept than are shown after one change and before the
    next. -/
def splitHunks : List Piece → List (List Piece)
  | [] => [[]]
  | piece :: pieces =>
      let others := splitHunks pieces
      if piece.kept ∧ 2 * radius < piece.oldCount then
        match others with
        | hunk :: hunks => [piece.takeFront radius] :: (piece.takeBack radius :: hunk) :: hunks
        | [] => [[piece.takeFront radius]]
      else
        match others with
        | hunk :: hunks => (piece :: hunk) :: hunks
        | [] => [[piece]]

/-- The hunks of pieces. At the end, kept lines alone are none. -/
def hunksOf (pieces : List Piece) : List (List Piece) :=
  let hunks := splitHunks (trimBack (trimFront pieces))
  match hunks.getLast? with
  | some [] => hunks.dropLast
  | some [piece] => if piece.kept then hunks.dropLast else hunks
  | _ => hunks

/-! ## Text -/

/-- The lines from an index up to another in a header. A count of one is left out, and
    where there is no line, the line before is named. -/
def rangeText (start stop : Nat) : String :=
  if stop - start = 1 then s!"{start + 1}"
  else if stop - start = 0 then s!"{start},0"
  else s!"{start + 1},{stop - start}"

/-- The header of a hunk. -/
def headerText (hunk : List Piece) : String :=
  match hunk.head?, hunk.getLast? with
  | some first, some last =>
      let oldRange := rangeText first.old (last.old + last.oldCount)
      let newRange := rangeText first.new (last.new + last.newCount)
      s!"@@ -{oldRange} +{newRange} @@\n"
  | _, _ => ""

/-- The character for a mark. -/
def Mark.char : Mark → Char
  | kept => ' '
  | deleted => '-'
  | inserted => '+'

/-- A line of a hunk. A line without an end is followed by a remark. -/
def lineText (line : Mark × Text) : Text :=
  line.1.char :: (line.2 ++
    if isEnded line.2 then [] else "\n\\ No newline at end of file\n".toList)

/-- A hunk with its header. -/
def hunkText (old new : List Text) (hunk : List Piece) : Text :=
  (headerText hunk).toList ++ (hunk.flatMap (·.lines old new)).flatMap lineText

/-- The unified diff of two texts under a name. -/
def unified (name : String) (old new : Text) : Text :=
  let oldLines := linesOf old
  let newLines := linesOf new
  s!"--- a/{name}\n+++ b/{name}\n".toList ++
    (hunksOf (pieces oldLines newLines)).flatMap (hunkText oldLines newLines)

end TagWrap.Diff
