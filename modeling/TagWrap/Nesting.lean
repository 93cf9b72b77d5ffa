import TagWrap.Element

/-!
# Nesting of elements

The elements of one file may stand apart from each other or inside each other. Two
that cross, and one that is listed twice, are refused: their edits could not all be
made. The check visits the tags by their start, the longer first, and keeps those
that are still open, innermost first.
-/
namespace TagWrap.Nesting

/-- Whether one range is visited before another: by its start, and of two with one
    start the longer first. -/
def visitedBefore (first second : ByteRange) : Bool :=
  first.start < second.start || (first.start == second.start && second.stop ≤ first.stop)

/-- Visit ranges in order, where those in `opened` enclose the place reached, the
    innermost first. A range conflicts with the innermost one that it still meets if
    it equals that one or ends after it. -/
def sweep : List ByteRange → List ByteRange → Except IngestError Unit
  | _, [] => .ok ()
  | opened, range :: ranges =>
      match opened.dropWhile (·.stop ≤ range.start) with
      | [] => sweep [range] ranges
      | outer :: others =>
          if outer = range ∨ outer.stop < range.stop then
            .error (.overlappingElements range.start range.stop outer.start outer.stop)
          else sweep (range :: outer :: others) ranges

/-- Refuse ranges of which one occurs twice or two cross. -/
def checkRanges (ranges : List ByteRange) : Except IngestError Unit :=
  sweep [] (ranges.mergeSort visitedBefore)

/-- Refuse elements of which one is listed twice or two cross. -/
def check (elements : List Element) : Except IngestError Unit :=
  checkRanges (elements.map (·.span.range))

end TagWrap.Nesting
