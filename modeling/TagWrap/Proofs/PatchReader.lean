import TagWrap.Diff.Hunk

/-!
# Reading unified diffs

A reader of unified diffs looks at lines that end with a line feed, whatever else stands in them.
The first two name the files. Then a line with two at signs starts a hunk, with the number of its
first line and the count of its lines on either side, and the lines of the hunk follow, each behind
a character that says on which side it stands. A line that starts with a backslash says that the
line before it has no end.

The hunks are made in order. A hunk goes where its header says, and the lines that it takes from
the old text must be the lines that stand there. Lines between hunks are taken over.
-/
namespace TagWrap.Patch

open Diff (Mark)

/-- A hunk as a reader sees it. -/
structure Hunk where
  oldStart : Nat
  oldCount : Nat
  newStart : Nat
  newCount : Nat
  lines : List (Mark × Text)
deriving DecidableEq, Repr

/-- The lines of the old text among marked lines. -/
def oldSide (lines : List (Mark × Text)) : List Text :=
  (lines.filter fun line => line.1 ≠ .inserted).map Prod.snd

/-- The lines of the new text among marked lines. -/
def newSide (lines : List (Mark × Text)) : List Text :=
  (lines.filter fun line => line.1 ≠ .deleted).map Prod.snd

namespace Hunk

/-- The lines of the old text in a hunk. -/
def oldLines (hunk : Hunk) : List Text := oldSide hunk.lines

/-- The lines of the new text in a hunk. -/
def newLines (hunk : Hunk) : List Text := newSide hunk.lines

/-- The counts in the header are those of the lines in the hunk. -/
def Counted (hunk : Hunk) : Prop :=
  hunk.oldCount = hunk.oldLines.length ∧ hunk.newCount = hunk.newLines.length

instance (hunk : Hunk) : Decidable hunk.Counted := inferInstanceAs (Decidable (_ ∧ _))

end Hunk

/-! ## Lines -/

/-- The lines of a text that end with a line feed, and what stands behind the last one. -/
def feedLines : Text → List Text
  | [] => []
  | '\n' :: rest => ['\n'] :: feedLines rest
  | char :: rest => Diff.pushFront char (feedLines rest)

/-- Lines where those that are said to have no end have lost it. -/
def joinMarkers : List Text → List Text
  | line :: next :: lines =>
      if next.head? = some '\\' then line.dropLast :: joinMarkers lines
      else line :: joinMarkers (next :: lines)
  | lines => lines

/-! ## Headers -/

/-- A number at the start of a text, and the rest of the text. -/
def readNumber (text : Text) : Option (Nat × Text) :=
  let digits := text.takeWhile Char.isDigit
  if digits = [] then none
  else some (Nat.ofDigitChars 10 digits 0, text.dropWhile Char.isDigit)

/-- The first line and the count of lines at the start of a text, and the rest of the text. A count
    that is left out is one. -/
def readRange (text : Text) : Option (Nat × Nat × Text) := do
  let (start, rest) ← readNumber text
  match rest with
  | ',' :: rest => do
      let (count, rest) ← readNumber rest
      return (start, count, rest)
  | rest => return (start, 1, rest)

/-- The header of a hunk without lines yet. -/
def readHeader (line : Text) : Option Hunk :=
  match line with
  | '@' :: '@' :: ' ' :: '-' :: rest => do
      let (oldStart, oldCount, rest) ← readRange rest
      match rest with
      | ' ' :: '+' :: rest => do
          let (newStart, newCount, rest) ← readRange rest
          if rest = " @@\n".toList then some ⟨oldStart, oldCount, newStart, newCount, []⟩ else none
      | _ => none
  | _ => none

/-! ## Hunks -/

/-- The lines before the first header, and the hunks. -/
def readHunks : List Text → Option (List (Mark × Text) × List Hunk)
  | [] => some ([], [])
  | line :: lines => do
      let (body, hunks) ← readHunks lines
      match line with
      | ' ' :: text => return ((.kept, text) :: body, hunks)
      | '-' :: text => return ((.deleted, text) :: body, hunks)
      | '+' :: text => return ((.inserted, text) :: body, hunks)
      | line => do
          let header ← readHeader line
          return ([], { header with lines := body } :: hunks)

/-- The hunks of a unified diff. -/
def read (text : Text) : Option (List Hunk) :=
  match feedLines text with
  | ('-' :: '-' :: '-' :: ' ' :: _) :: ('+' :: '+' :: '+' :: ' ' :: _) :: lines =>
      if ∀ line ∈ lines, line.getLast? = some '\n' then
        match readHunks (joinMarkers lines) with
        | some ([], hunks) => some hunks
        | _ => none
      else none
  | _ => none

/-! ## Application -/

/-- The number of lines before a range. A range without lines names the line before it. -/
def linesBefore (start count : Nat) : Nat := if count = 0 then start else start - 1

/-- Make the changes of hunks in the lines behind an old line and a new one. -/
def applyFrom : Nat → Nat → List Hunk → List Text → Option (List Text)
  | _, _, [], old => some old
  | oldAt, newAt, hunk :: hunks, old =>
      let oldFirst := linesBefore hunk.oldStart hunk.oldCount
      let gap := old.take (oldFirst - oldAt)
      let rest := old.drop (oldFirst - oldAt)
      if oldFirst = oldAt + gap.length ∧
          linesBefore hunk.newStart hunk.newCount = newAt + gap.length ∧
          hunk.oldLines <+: rest then do
        let later ← applyFrom (oldAt + gap.length + hunk.oldLines.length)
          (newAt + gap.length + hunk.newLines.length) hunks (rest.drop hunk.oldLines.length)
        return gap ++ (hunk.newLines ++ later)
      else none

/-- Make the changes of hunks in a text. -/
def apply (hunks : List Hunk) (old : Text) : Option Text :=
  (applyFrom 0 0 hunks (feedLines old)).map List.flatten

end TagWrap.Patch
