import TagWrap.Position

/-!
# Edits

An edit puts a text in the place of a span of the source. A batch of edits is
applied as a whole: every span is a span of the source before the batch, and the
batch is refused if any span is not or if two edits meet. Two edits with one start
always meet, even where both only insert, since nothing says which comes first.
-/
namespace TagWrap

/-- A change to the source. -/
structure Edit where
  /-- The piece of source to replace. -/
  span : Span
  replacement : Text
  /-- What the change does, for people. -/
  message : String
deriving DecidableEq, Repr

/-- Why a batch of edits is refused. -/
inductive EditError where
  | overlappingEdits (offset : Nat)
  | spanOutOfBounds (start stop length : Nat)
  | notCharBoundary (offset : Nat)
deriving DecidableEq, Repr

namespace EditError

/-- The wording of an error. -/
def message : EditError → String
  | overlappingEdits offset => s!"Overlapping edits detected at offset {offset}"
  | spanOutOfBounds start stop length =>
      s!"Edit span {start}..{stop} out of bounds for source length {length}"
  | notCharBoundary offset => s!"Edit offset {offset} is not on a character boundary"

end EditError

namespace Edit

/-- The offset at which the edit starts. -/
def start (edit : Edit) : Nat := edit.span.start.offset

/-- The offset at which the edit stops. -/
def stop (edit : Edit) : Nat := edit.span.stop.offset

/-- Check one edit against the source and against the start of the edit after it in
    the source, if there is one. -/
def check (source : Text) (next : Option Nat) (edit : Edit) : Except EditError Unit :=
  if Text.byteSize source < edit.stop ∨ edit.stop < edit.start then
    .error (.spanOutOfBounds edit.start edit.stop (Text.byteSize source))
  else if !Text.isBoundary source edit.start then
    .error (.notCharBoundary edit.start)
  else if !Text.isBoundary source edit.stop then
    .error (.notCharBoundary edit.stop)
  else match next with
    | none => .ok ()
    | some next =>
        if next < edit.stop ∨ edit.start = next then
          .error (.overlappingEdits edit.start)
        else .ok ()

/-- Check edits that are given from the end of the source to its start. -/
def checkAll (source : Text) : Option Nat → List Edit → Except EditError Unit
  | _, [] => .ok ()
  | next, edit :: edits => do
      check source next edit
      checkAll source (some edit.start) edits

/-- Make one change. -/
def apply (source : Text) (edit : Edit) : Text :=
  Text.replaceRange source edit.start edit.stop edit.replacement

/-- Edits from the end of the source to its start. Those with one start keep their
    order. -/
def fromEnd (edits : List Edit) : List Edit :=
  edits.mergeSort fun first second => second.start ≤ first.start

/-- Apply a batch of edits. The changes are made from the end of the source to its
    start, so that each span still lies where it did. -/
def applyAll (source : Text) (edits : List Edit) : Except EditError Text := do
  checkAll source none (fromEnd edits)
  return (fromEnd edits).foldl apply source

end Edit

end TagWrap
