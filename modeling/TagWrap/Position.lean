import TagWrap.Text.Offset

/-!
# Positions, spans and the line index

A position says where a byte offset falls: in which line and at which column. Lines
and columns count from zero, and a column counts characters rather than bytes. Only
a line feed ends a line; a carriage return is a character like any other.

The line index of a text is the table of the offsets at which its lines start. An
offset belongs to the last line that starts at or before it.
-/
namespace TagWrap

/-- A place in a source text. -/
structure Position where
  /-- Bytes before the place. -/
  offset : Nat
  /-- Lines before the line of the place. -/
  line : Nat
  /-- Characters before the place on its line. -/
  column : Nat
deriving DecidableEq, Repr

/-- The places at which a piece of source text starts and stops. -/
structure Span where
  start : Position
  stop : Position
deriving DecidableEq, Repr

namespace Span

/-- The number of bytes covered, where the span does not run backwards. -/
def length? (span : Span) : Option Nat :=
  if span.start.offset ≤ span.stop.offset then
    some (span.stop.offset - span.start.offset)
  else none

/-- Whether the span covers no byte. -/
def isEmpty (span : Span) : Bool := span.start.offset == span.stop.offset

/-- Whether the span starts and stops on different lines. -/
def isMultiline (span : Span) : Bool := span.start.line != span.stop.line

end Span

/-- A half-open range of byte offsets, as a parser reports it. Nothing is known
    about its ends: they can be out of order or out of bounds. -/
structure ByteRange where
  start : Nat
  stop : Nat
deriving DecidableEq, Repr

/-- The byte range that a span covers. -/
def Span.range (span : Span) : ByteRange := ⟨span.start.offset, span.stop.offset⟩

/-- The offsets just after each line feed, where the text itself starts at `offset`. -/
def lineStartsAfter (offset : Nat) : Text → List Nat
  | [] => []
  | char :: rest =>
      let next := offset + char.utf8Size
      if char = '\n' then next :: lineStartsAfter next rest else lineStartsAfter next rest

/-- A source text with the offsets at which its lines start, in order. -/
structure LineIndex where
  source : Text
  lineStarts : List Nat
deriving Repr

namespace LineIndex

/-- The first line starts at the start of the text, every other line after a line
    feed. -/
def ofText (source : Text) : LineIndex := ⟨source, 0 :: lineStartsAfter 0 source⟩

/-- The number of lines. A text that ends in a line feed has an empty last line. -/
def lineCount (index : LineIndex) : Nat := index.lineStarts.length

/-- The position of a byte offset. An offset past the end stands for the end. For
    an offset inside a character the column counts the bytes since the start of the
    line, since there is no run of whole characters to count. -/
def position (index : LineIndex) (offset : Nat) : Position :=
  let offset := min offset (Text.byteSize index.source)
  let begun := index.lineStarts.takeWhile (· ≤ offset)
  let lineStart := begun.getLastD 0
  let column := match Text.slice? index.source lineStart offset with
    | some front => front.length
    | none => offset - lineStart
  ⟨offset, begun.length - 1, column⟩

/-- The span of a byte range. -/
def span (index : LineIndex) (range : ByteRange) : Span :=
  ⟨index.position range.start, index.position range.stop⟩

end LineIndex

end TagWrap
