import TagWrap.AttributeName
import TagWrap.Position
import TagWrap.Text.Quoted

/-!
# Opening tags and their attributes

An element is an opening tag as the byte ranges of a parser describe it. Building
one checks the ranges against the source once and resolves all that later steps
need: positions, the name of each attribute and the blanks in front of it. Nothing
after that looks at the source again.

The ranges of the attributes must be given in source order, inside the tag, apart
from each other and not empty. The first range that breaks a condition decides the
error.
-/
namespace TagWrap

/-- Why byte ranges do not describe a well-formed opening tag. -/
inductive IngestError where
  | spanOutOfBounds (start stop length : Nat)
  | invertedSpan (start stop : Nat)
  | notCharBoundary (offset : Nat)
  | outsideElement (start stop tagStart tagStop : Nat)
  | outOfOrder (start previousStop : Nat)
  | emptyAttribute (offset : Nat)
  | malformed (offset : Nat) (text : Text)
  | overlappingElements (start stop otherStart otherStop : Nat)
deriving DecidableEq, Repr

namespace IngestError

/-- The wording of an error. -/
def message : IngestError → String
  | spanOutOfBounds start stop length =>
      s!"Span {start}..{stop} out of bounds for source length {length}"
  | invertedSpan start stop => s!"Span {start}..{stop} ends before it starts"
  | notCharBoundary offset => s!"Offset {offset} is not on a character boundary"
  | outsideElement start stop tagStart tagStop =>
      s!"Attribute {start}..{stop} lies outside its element {tagStart}..{tagStop}"
  | outOfOrder start previousStop =>
      s!"Attribute at offset {start} overlaps the previous attribute ending at {previousStop}"
  | emptyAttribute offset => s!"Attribute at offset {offset} is empty"
  | malformed offset text =>
      s!"Attribute at offset {offset} has no name: " ++ String.ofList (Text.quoted text)
  | overlappingElements start stop otherStart otherStop =>
      s!"Element {start}..{stop} overlaps element {otherStart}..{otherStop}"

end IngestError

/-- One attribute of an opening tag. -/
structure Attribute where
  name : AttributeName
  span : Span
  /-- The blanks between what precedes the attribute and the attribute. The span is
      empty where the attribute directly follows a comment or a brace. -/
  leadingBlanks : Span
deriving DecidableEq, Repr

namespace Attribute

/-- The line that the attribute starts on. -/
def startLine (attr : Attribute) : Nat := attr.span.start.line

/-- The line that the attribute ends on. -/
def stopLine (attr : Attribute) : Nat := attr.span.stop.line

/-- The column that the attribute starts at. -/
def startColumn (attr : Attribute) : Nat := attr.span.start.column

end Attribute

/-- An opening tag, from its opening angle bracket through its closing one. -/
structure Element where
  span : Span
  attributes : List Attribute
  /-- What lines a new line up with the first attribute. -/
  indent : Text
deriving DecidableEq, Repr

namespace Element

/-- Whether the tag ends on a later line than it starts on. -/
def isMultiline (element : Element) : Bool := element.span.isMultiline

/-- Whether the tag has no attribute. -/
def isEmpty (element : Element) : Bool := element.attributes.isEmpty

/-- An element of attributes that are resolved already, with spaces up to the first
    of them as its indent. -/
def ofAttributes (span : Span) (attributes : List Attribute) : Element :=
  let indent := match attributes with
    | [] => []
    | first :: _ => List.replicate first.startColumn ' '
  ⟨span, attributes, indent⟩

/-- Refuse a range that runs backwards, leaves the source or cuts a character. -/
def checkRange (source : Text) (range : ByteRange) : Except IngestError Unit :=
  if range.stop < range.start then
    .error (.invertedSpan range.start range.stop)
  else if Text.byteSize source < range.stop then
    .error (.spanOutOfBounds range.start range.stop (Text.byteSize source))
  else if !Text.isBoundary source range.start then
    .error (.notCharBoundary range.start)
  else if !Text.isBoundary source range.stop then
    .error (.notCharBoundary range.stop)
  else .ok ()

/-- The offset at which the blanks in front of `start` begin, where nothing before
    `bound` is looked at. -/
def blanksStart (source : Text) (bound start : Nat) : Nat :=
  let gap := (Text.slice? source bound start).getD []
  bound + Text.byteSize (Text.trimEnd gap)

/-- Resolve one attribute of a tag, where the token before it ends at
    `previousStop`. -/
def resolveAttribute (index : LineIndex) (tag : ByteRange) (previousStop : Nat) (range : ByteRange) :
    Except IngestError Attribute := do
  checkRange index.source range
  if range.start = range.stop then
    throw (.emptyAttribute range.start)
  if range.start ≤ tag.start ∨ tag.stop < range.stop then
    throw (.outsideElement range.start range.stop tag.start tag.stop)
  if range.start < previousStop then
    throw (.outOfOrder range.start previousStop)
  let text := (Text.slice? index.source range.start range.stop).getD []
  match AttributeName.ofSource? text with
  | none => throw (.malformed range.start text)
  | some name =>
      let blanks := ⟨blanksStart index.source previousStop range.start, range.start⟩
      return ⟨name, index.span range, index.span blanks⟩

/-- Resolve attributes in order. Each range must start where the one before it ends,
    or later. -/
def attributesFrom (index : LineIndex) (tag : ByteRange) :
    Nat → List ByteRange → Except IngestError (List Attribute)
  | _, [] => .ok []
  | previousStop, range :: ranges => do
      let first ← resolveAttribute index tag previousStop range
      let others ← attributesFrom index tag range.stop ranges
      return first :: others

/-- The text between the last line feed and the end of a text. -/
def lastLine (text : Text) : Text := (text.reverse.takeWhile (· != '\n')).reverse

/-- The indent that leads to the end of a line. Tabs stay tabs, so that it reaches
    as far under any tab width, and every other character becomes a space. -/
def indentUnder (line : Text) : Text :=
  line.map fun char => if char = '\t' then '\t' else ' '

/-- The indent of a tag: what leads to its first attribute, if it has one. -/
def indentOf (source : Text) : List ByteRange → Text
  | [] => []
  | first :: _ => indentUnder (lastLine (Text.before source first.start))

/-- Build an element from the byte ranges of its tag and attributes. The search for
    blanks in front of the first attribute stops after the first byte of the tag. -/
def ofRanges (index : LineIndex) (tag : ByteRange) (ranges : List ByteRange) :
    Except IngestError Element := do
  checkRange index.source tag
  let attributes ← attributesFrom index tag (tag.start + 1) ranges
  return ⟨index.span tag, attributes, indentOf index.source ranges⟩

end Element

end TagWrap
