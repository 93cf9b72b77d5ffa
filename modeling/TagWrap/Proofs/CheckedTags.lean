import TagWrap.Proofs.Layout
import TagWrap.Proofs.LineTable
import TagWrap.Proofs.Traps

/-!
# Tags are read without a trap

The line index of a source and the elements of its tags, built by steps that can trap. None of them
does, and what comes out is what the library has (`ofRanges_eq_untrapped`). The ranges of a tag are
any numbers. What keeps the steps from trapping is the check of the ranges that goes before them:
from there on every offset is one between two characters of the source.

Only the size of the source counts. One more than it has to be an offset, since the search for
blanks starts one byte behind the start of a tag, and a tag without attributes can be empty and at
the end. Texts in memory are smaller than half of that.
-/
namespace TagWrap.Checked

open Text

/-! ## Positions -/

/-- The offsets just after each line feed, where the text itself starts at `offset`. -/
def lineStartsAfter (offset : Nat) : Text → Except Trap (List Nat)
  | [] => .ok []
  | char :: rest => do
      let next ← add offset char.utf8Size
      let starts ← lineStartsAfter next rest
      return if char = '\n' then next :: starts else starts

/-- The line index of a source. -/
def lineIndex (source : Text) : Except Trap LineIndex := do
  let starts ← lineStartsAfter 0 source
  return ⟨source, 0 :: starts⟩

/-- The position of an offset. The bytes since the start of the line are counted before it is known
    whether they are asked for. -/
def position (index : LineIndex) (offset : Nat) : Except Trap Position := do
  let offset := min offset (byteSize index.source)
  let reached ← partitionPoint index.lineStarts offset
  let line ← sub reached 1
  let lineStart ← get index.lineStarts line
  let bytes ← sub offset lineStart
  let column := match slice? index.source lineStart offset with
    | some front => front.length
    | none => bytes
  return ⟨offset, line, column⟩

/-- The span of a byte range. -/
def span (index : LineIndex) (range : ByteRange) : Except Trap Span := do
  let start ← position index range.start
  let stop ← position index range.stop
  return ⟨start, stop⟩

theorem lineStartsAfter_eq_ok {offset : Nat} {text : Text}
    (room : offset + byteSize text < offsetLimit) :
    lineStartsAfter offset text = .ok (TagWrap.lineStartsAfter offset text) := by
  induction text generalizing offset with
  | nil => rfl
  | cons char rest inductionHypothesis =>
      rw [byteSize_cons] at room
      have later := @inductionHypothesis (offset + char.utf8Size) (by omega)
      rw [lineStartsAfter, add_eq_ok (by omega), ok_bind, later, ok_bind]
      rfl

/-- The line starts of a source are no larger than the source. -/
theorem lineIndex_eq_ok {source : Text} (room : byteSize source + 1 < offsetLimit) :
    lineIndex source = .ok (.ofText source) := by
  rw [lineIndex, lineStartsAfter_eq_ok (by omega)]
  rfl

/-- The last of the line starts that an offset has reached is found at its own place in the table,
    and the offset is not in front of it. There is one, since the first line starts at zero. -/
theorem get_lineStart (source : Text) (offset : Nat) :
    let reached := (LineIndex.ofText source).lineStarts.takeWhile (· ≤ offset)
    1 ≤ reached.length ∧
      get (LineIndex.ofText source).lineStarts (reached.length - 1) = .ok (reached.getLastD 0) ∧
      reached.getLastD 0 ≤ offset := by
  intro reached
  have whole : reached ++ (LineIndex.ofText source).lineStarts.dropWhile (· ≤ offset) =
      (LineIndex.ofText source).lineStarts := List.takeWhile_append_dropWhile
  have filled : reached ≠ [] := by
    have first : reached = 0 :: _ := List.takeWhile_cons_of_pos (by simp)
    simp [first]
  obtain ⟨last, ends⟩ : ∃ last, reached.getLast? = some last :=
    ⟨_, List.getLast?_eq_some_getLast filled⟩
  have positive : 1 ≤ reached.length := List.length_pos_iff.mpr filled
  rw [List.getLastD_eq_getLast?, ends, Option.getD_some]
  refine ⟨positive, get_eq_ok ?_, ?_⟩
  · rw [← whole, List.getElem?_append_left (by omega), ← List.getLast?_eq_getElem?, ends]
  · have all := List.all_eq_true.mp (@List.all_takeWhile _ (· ≤ offset)
      (LineIndex.ofText source).lineStarts)
    exact of_decide_eq_true (all last (List.mem_of_getLast? ends))

/-- An offset has a position wherever it lies: beyond the end it is moved there, and the table of
    line starts is increasing and begins with zero. -/
theorem position_eq_ok (source : Text) (offset : Nat) :
    position (.ofText source) offset = .ok ((LineIndex.ofText source).position offset) := by
  obtain ⟨positive, listed, behind⟩ := get_lineStart source (min offset (byteSize source))
  have counted := partitionPoint_eq_ok (LineIndex.beyond_of_increasing
    (LineIndex.lineStarts_increasing source) (min offset (byteSize source)))
  have source_eq : (LineIndex.ofText source).source = source := rfl
  simp only [position, source_eq, counted, ok_bind, sub_eq_ok positive, listed, sub_eq_ok behind]
  rfl

theorem span_eq_ok (source : Text) (range : ByteRange) :
    span (.ofText source) range = .ok ((LineIndex.ofText source).span range) := by
  rw [span, position_eq_ok, ok_bind, position_eq_ok]
  rfl

/-! ## Attributes -/

/-- Resolve one attribute of a tag. Its text is cut out of the source without a further look at the
    range, while a gap that cannot be cut out counts as empty. -/
def resolveAttribute (index : LineIndex) (tag : ByteRange) (previousStop : Nat)
    (range : ByteRange) : ExceptT IngestError (Except Trap) Attribute := do
  untrapped (Element.checkRange index.source range)
  if range.start = range.stop then
    throw (.emptyAttribute range.start)
  if range.start ≤ tag.start ∨ tag.stop < range.stop then
    throw (.outsideElement range.start range.stop tag.start tag.stop)
  if range.start < previousStop then
    throw (.outOfOrder range.start previousStop)
  let text ← slice index.source range.start range.stop
  match AttributeName.ofSource? text with
  | none => throw (.malformed range.start text)
  | some name =>
      let gap := (slice? index.source previousStop range.start).getD []
      let blanksStart ← add previousStop (byteSize (trimEnd gap))
      let own ← span index range
      let blanks ← span index ⟨blanksStart, range.start⟩
      return ⟨name, own, blanks⟩

/-- Resolve attributes in order. -/
def attributesFrom (index : LineIndex) (tag : ByteRange) :
    Nat → List ByteRange → ExceptT IngestError (Except Trap) (List Attribute)
  | _, [] => untrapped (.ok [])
  | previousStop, range :: ranges => do
      let first ← resolveAttribute index tag previousStop range
      let others ← attributesFrom index tag range.stop ranges
      return first :: others

/-- A range that has passed the check starts in the source. -/
theorem start_le {source : Text} {range : ByteRange}
    (passed : Element.checkRange source range = .ok ()) :
    range.start ≤ byteSize source := by
  obtain ⟨front, text, back, rfl, rfl⟩ := Element.checkRange_eq_ok_iff.mp passed
  simp only [byteSize_append]
  omega

section Attributes

variable {source : Text} (room : byteSize source + 1 < offsetLimit)

include room

/-- The text of an attribute is that of a range that has passed the check. The blanks in front of it
    start in front of it. -/
theorem resolveAttribute_eq_untrapped (tag : ByteRange) (bound : Nat) (range : ByteRange) :
    resolveAttribute (.ofText source) tag bound range =
      untrapped (Element.resolveAttribute (.ofText source) tag bound range) := by
  refine bind_eq_untrapped rfl fun _ passed => ?_
  refine refuse_eq_untrapped fun filled => ?_
  refine refuse_eq_untrapped fun inside => ?_
  refine refuse_eq_untrapped fun behind => ?_
  obtain ⟨front, text, back, whole, rfl⟩ := Element.checkRange_eq_ok_iff.mp passed
  have source_eq : (LineIndex.ofText source).source = source := rfl
  rw [source_eq] at whole
  have sliced : slice? source (byteSize front) (byteSize (front ++ text)) = some text :=
    whole ▸ slice?_append front text back
  -- The blanks are part of the gap, so the sum is an offset of the source.
  have summed : add bound (byteSize (trimEnd ((slice? source bound (byteSize front)).getD []))) =
      .ok (Element.blanksStart source bound (byteSize front)) := by
    have ahead : Element.blanksStart source bound (byteSize front) ≤ byteSize front :=
      Element.blanksStart_le (Nat.not_lt.mp behind)
    have inside : byteSize front ≤ byteSize source := start_le passed
    exact add_eq_ok (Nat.lt_of_le_of_lt ahead (by omega))
  simp only [source_eq, slice_eq_ok sliced, lift_bind, sliced, Option.getD_some]
  cases AttributeName.ofSource? text with
  | none => rfl
  | some name =>
      simp only [summed, lift_bind, span_eq_ok]
      rfl

theorem attributesFrom_eq_untrapped (tag : ByteRange) (bound : Nat) (ranges : List ByteRange) :
    attributesFrom (.ofText source) tag bound ranges =
      untrapped (Element.attributesFrom (.ofText source) tag bound ranges) := by
  induction ranges generalizing bound with
  | nil => rfl
  | cons range ranges inductionHypothesis =>
      refine bind_eq_untrapped (resolveAttribute_eq_untrapped room tag bound range) fun _ _ => ?_
      exact bind_eq_untrapped (inductionHypothesis range.stop) fun _ _ => rfl

end Attributes

/-! ## Indents -/

/-- The offset of the last line feed of a text. -/
def lastFeed? : Text → Option Nat
  | [] => none
  | char :: rest =>
      match lastFeed? rest with
      | some offset => some (char.utf8Size + offset)
      | none => if char = '\n' then some 0 else none

/-- The offset at which the last line of a text starts. -/
def lastLineStart (text : Text) : Except Trap Nat :=
  match lastFeed? text with
  | some offset => add offset 1
  | none => .ok 0

/-- The indent of a tag. The source is cut at its first attribute, and what is in front of that at
    the start of its last line. -/
def indentOf (source : Text) : List ByteRange → Except Trap Text
  | [] => .ok []
  | first :: _ => do
      let front ← slice source 0 first.start
      let lineStart ← lastLineStart front
      let line ← slice front lineStart (byteSize front)
      return Element.indentUnder line

theorem lastFeed?_eq_none {line : Text} (lone : '\n' ∉ line) : lastFeed? line = none := by
  induction line with
  | nil => rfl
  | cons char rest inductionHypothesis =>
      have other : char ≠ '\n' := fun feed => lone (feed ▸ List.mem_cons_self)
      rw [lastFeed?, inductionHypothesis fun later => lone (List.mem_cons_of_mem char later)]
      exact if_neg other

theorem lastFeed?_append {lines line : Text} (lone : '\n' ∉ line) :
    lastFeed? (lines ++ '\n' :: line) = some (byteSize lines) := by
  induction lines with
  | nil => simp [lastFeed?, lastFeed?_eq_none lone]
  | cons char rest inductionHypothesis =>
      rw [List.cons_append, lastFeed?, inductionHypothesis]
      rfl

/-- The last line of a text starts where the rest of the text ends. -/
theorem lastLineStart_eq_ok {head line : Text} (lone : '\n' ∉ line)
    (begins : head = [] ∨ ∃ lines, head = lines ++ ['\n']) (room : byteSize head < offsetLimit) :
    lastLineStart (head ++ line) = .ok (byteSize head) := by
  rcases begins with rfl | ⟨lines, rfl⟩
  · rw [lastLineStart, List.nil_append, lastFeed?_eq_none lone]
    rfl
  · have size : byteSize (lines ++ ['\n']) = byteSize lines + 1 := byteSize_append lines ['\n']
    rw [List.append_assoc, List.singleton_append, lastLineStart, lastFeed?_append lone]
    rw [size] at room ⊢
    exact add_eq_ok room

/-- Where the first attribute starts at a cut of the source, both cuts for the indent exist. -/
theorem indentOf_eq_ok {front back : Text} (room : byteSize (front ++ back) + 1 < offsetLimit)
    {ranges : List ByteRange} (begins : ∀ first ∈ ranges.head?, first.start = byteSize front) :
    indentOf (front ++ back) ranges = .ok (Element.indentOf (front ++ back) ranges) := by
  cases ranges with
  | nil => rfl
  | cons first others =>
      obtain ⟨head, drawn, lone, opens⟩ := Element.exists_lastLine front
      have upTo : slice? (front ++ back) 0 (byteSize front) = some front :=
        slice?_append [] front back
      have line :
          slice? front (byteSize head) (byteSize front) = some (Element.lastLine front) := by
        have cut := slice?_append head (Element.lastLine front) []
        rwa [List.append_nil, ← drawn] at cut
      have starts : lastLineStart front = .ok (byteSize head) := by
        have size := congrArg byteSize drawn
        rw [byteSize_append] at size room
        have found := lastLineStart_eq_ok lone opens (by omega)
        rwa [← drawn] at found
      rw [indentOf, begins first rfl, slice_eq_ok upTo, ok_bind, starts, ok_bind, slice_eq_ok line,
        Element.indentOf, begins first rfl, before_append]
      rfl

/-! ## Elements -/

/-- Build an element from the byte ranges of its tag and attributes. -/
def ofRanges (index : LineIndex) (tag : ByteRange) (ranges : List ByteRange) :
    ExceptT IngestError (Except Trap) Element := do
  untrapped (Element.checkRange index.source tag)
  let bound ← add tag.start 1
  let attributes ← attributesFrom index tag bound ranges
  let indent ← indentOf index.source ranges
  let own ← span index tag
  return ⟨own, attributes, indent⟩

/-- An element is built or refused. A tag that has passed the check starts in the source, and so
    does the first attribute when it has been resolved. -/
theorem ofRanges_eq_untrapped {source : Text} (room : byteSize source + 1 < offsetLimit)
    (tag : ByteRange) (ranges : List ByteRange) :
    ofRanges (.ofText source) tag ranges =
      untrapped (Element.ofRanges (.ofText source) tag ranges) := by
  have source_eq : (LineIndex.ofText source).source = source := rfl
  refine bind_eq_untrapped rfl fun _ passed => ?_
  have starts : tag.start ≤ byteSize source := start_le passed
  rw [add_eq_ok (by omega), lift_bind]
  refine bind_eq_untrapped (attributesFrom_eq_untrapped room tag _ ranges) fun _ resolved => ?_
  have indented : indentOf source ranges = .ok (Element.indentOf source ranges) := by
    cases ranges with
    | nil => rfl
    | cons first others =>
        obtain ⟨_, _, head, _, _⟩ := Element.attributesFrom_cons_eq_ok_iff.mp resolved
        obtain ⟨front, body, back, _, rfl, rfl, _⟩ := Element.resolveAttribute_eq_ok_iff.mp head
        rw [List.append_assoc] at room ⊢
        apply indentOf_eq_ok room
        rintro _ ⟨⟩
        rfl
  rw [source_eq, indented, lift_bind, span_eq_ok, lift_bind]
  rfl

end TagWrap.Checked
