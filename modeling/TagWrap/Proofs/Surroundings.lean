import TagWrap.Proofs.Layout
import TagWrap.Rule

/-!
# Elements in a larger source

A source can stand in a larger one, behind some lines and in front of anything. Then all its offsets
move by the bytes in front of it and all its lines by the line feeds there, while its columns stay,
since the first line of the source starts where a line of the larger one does. `position_between`
says so for every offset of the source, also for one inside a character.

Building an element and checking it use positions, the text between two offsets and the text from
the last line feed on, and nothing else of the source. So what comes out is moved in the same way
(`surroundings_immaterial`): names, columns, indents, replacements and messages stay as they are.
-/
namespace TagWrap

open Text

/-- How far into a larger source a source begins. -/
structure Displacement where
  bytes : Nat
  lines : Nat

namespace Displacement

/-- A source behind a text begins behind its bytes and its line feeds. -/
def behind (front : Text) : Displacement := ⟨byteSize front, front.count '\n'⟩

/-- A place of a source in the larger one. It keeps its column. -/
def position (move : Displacement) (place : Position) : Position :=
  { place with offset := place.offset + move.bytes, line := place.line + move.lines }

/-- A span of a source in the larger one. -/
def span (move : Displacement) (span : Span) : Span :=
  ⟨move.position span.start, move.position span.stop⟩

/-- A byte range of a source in the larger one. -/
def range (move : Displacement) (range : ByteRange) : ByteRange :=
  ⟨range.start + move.bytes, range.stop + move.bytes⟩

/-- The ranges of a tag and of its attributes in the larger source. -/
def tag (move : Displacement) (ranges : TagRanges) : TagRanges :=
  ⟨move.range ranges.tag, ranges.attributes.map move.range⟩

/-- An attribute in the larger source. It keeps its name. -/
def attr (move : Displacement) (attr : Attribute) : Attribute :=
  { attr with span := move.span attr.span, leadingBlanks := move.span attr.leadingBlanks }

/-- An element in the larger source. It keeps its indent. -/
def element (move : Displacement) (element : Element) : Element :=
  { element with
    span := move.span element.span
    attributes := element.attributes.map move.attr }

/-- A group of attributes in the larger source. -/
def group (move : Displacement) (group : LineGroup) : LineGroup :=
  ⟨move.attr group.first, group.rest.map move.attr⟩

/-- An edit in the larger source. It keeps its replacement and its message. -/
def edit (move : Displacement) (edit : Edit) : Edit := { edit with span := move.span edit.span }

/-- A violation in the larger source. It keeps its subject, and so its message. -/
def violation (move : Displacement) (violation : Violation) : Violation :=
  { violation with location := move.span violation.location, edit := move.edit violation.edit }

end Displacement

/-- What stands between two offsets of a source stands between the moved offsets in a larger one. -/
theorem Text.slice?_between (front source back : Text) {start stop : Nat}
    (within : stop ≤ byteSize source) :
    slice? (front ++ source ++ back) (start + byteSize front) (stop + byteSize front) =
      slice? source start stop := by
  apply Option.ext
  intro inner
  rw [slice?_eq_some, slice?_eq_some]
  constructor
  · rintro ⟨upper, lower, whole, begins, ends⟩
    rw [List.append_assoc, List.append_assoc] at whole
    obtain ⟨own, rfl, rest⟩ := exists_between whole (by omega)
    rw [byteSize_append] at begins
    obtain ⟨later, rfl, -⟩ := exists_between
      (show (own ++ inner) ++ lower = source ++ back by rw [rest, List.append_assoc])
      (by rw [byteSize_append]; omega)
    exact ⟨own, later, rfl, by omega, by omega⟩
  · rintro ⟨own, later, rfl, begins, ends⟩
    exact ⟨front ++ own, later ++ back, by simp, by rw [byteSize_append]; omega, by omega⟩

namespace LineIndex

/-- The line starts behind line feeds move with the start of the text. -/
theorem lineStartsAfter_eq_map (offset : Nat) (text : Text) :
    lineStartsAfter offset text = (lineStartsAfter 0 text).map (· + offset) := by
  induction text generalizing offset with
  | nil => rfl
  | cons char rest inductionHypothesis =>
      have later := inductionHypothesis (0 + char.utf8Size)
      rw [lineStartsAfter, lineStartsAfter, later, inductionHypothesis (offset + char.utf8Size)]
      split <;> simp [Function.comp_def, Nat.add_comm, Nat.add_left_comm]

variable {front source : Text} (closed : front = [] ∨ ∃ lines, front = lines ++ ['\n'])

include closed

/-- The last line start of some whole lines is their end, and in front of it stands one line start
    for each line feed. -/
theorem exists_earlier_starts : ∃ earlier, 0 :: lineStartsAfter 0 front =
    earlier ++ [byteSize front] ∧ earlier.length = front.count '\n' := by
  have filled : 0 :: lineStartsAfter 0 front ≠ [] := List.cons_ne_nil _ _
  have last := @getLastD_lineStarts front [] List.not_mem_nil closed
  rw [List.append_nil, List.getLastD_eq_getLast?, List.getLast?_eq_some_getLast filled,
    Option.getD_some] at last
  refine ⟨(0 :: lineStartsAfter 0 front).dropLast, ?_, ?_⟩
  · rw [← last, List.dropLast_append_getLast filled]
  · rw [List.length_dropLast, List.length_cons, length_lineStartsAfter, Nat.add_sub_cancel]

/-- The line starts that an offset of a source has reached are the earlier ones of the larger source
    and then its own, moved. What stands behind the source has no line start that it has reached. -/
theorem takeWhile_lineStarts_between (back : Text) {offset : Nat}
    (within : offset ≤ byteSize source) :
    ∃ earlier, earlier.length = front.count '\n' ∧
      (ofText (front ++ source ++ back)).lineStarts.takeWhile (· ≤ offset + byteSize front) =
        earlier ++ ((ofText source).lineStarts.takeWhile (· ≤ offset)).map (· + byteSize front) := by
  obtain ⟨earlier, starts, counted⟩ := exists_earlier_starts closed
  let later := lineStartsAfter (0 + byteSize (front ++ source)) back
  have table : (ofText (front ++ source ++ back)).lineStarts =
      earlier ++ ((ofText source).lineStarts.map (· + byteSize front) ++ later) := by
    change 0 :: lineStartsAfter 0 (front ++ source ++ back) = _
    rw [lineStartsAfter_append, lineStartsAfter_append, ← List.cons_append, ← List.cons_append,
      starts, lineStartsAfter_eq_map (0 + byteSize front)]
    simp [ofText, later]
  have reached : ∀ start ∈ earlier, decide (start ≤ offset + byteSize front) = true := by
    intro start member
    have listed : start ∈ 0 :: lineStartsAfter 0 front := starts ▸ List.mem_append_left _ member
    rcases List.mem_cons.mp listed with rfl | behind
    · simp
    · have bounded := (lineStartsAfter_bounds behind).2
      exact decide_eq_true (by omega)
  have beyond : later.takeWhile (· ≤ offset + byteSize front) = [] := by
    cases drawn : later with
    | nil => rfl
    | cons start others =>
        have bounded := (lineStartsAfter_bounds (drawn ▸ List.mem_cons_self : start ∈ later)).1
        rw [byteSize_append] at bounded
        exact List.takeWhile_cons_of_neg (by simp only [decide_eq_true_eq]; omega)
  refine ⟨earlier, counted, ?_⟩
  rw [table, List.takeWhile_append_of_pos reached, List.takeWhile_append, beyond, List.append_nil,
    List.takeWhile_map]
  simp only [Function.comp_def, Nat.add_le_add_iff_right]
  split
  · rename_i all
    rw [List.length_map, List.length_map] at all
    rw [(List.takeWhile_prefix _).eq_of_length all]
  · rfl

/-- An offset of a source has the moved position in a larger one, whether it lies between two
    characters or inside one. -/
theorem position_between (back : Text) {offset : Nat} (within : offset ≤ byteSize source) :
    (ofText (front ++ source ++ back)).position (offset + byteSize front) =
      (Displacement.behind front).position ((ofText source).position offset) := by
  obtain ⟨earlier, counted, begun⟩ := takeWhile_lineStarts_between closed back within
  have inside : offset + byteSize front ≤ byteSize (front ++ source ++ back) := by
    simp only [byteSize_append]
    omega
  obtain ⟨others, own⟩ : ∃ others,
      (ofText source).lineStarts.takeWhile (· ≤ offset) = 0 :: others :=
    ⟨_, List.takeWhile_cons_of_pos (by simp)⟩
  rw [own] at begun
  have lineStart : (earlier ++ (0 :: others).map (· + byteSize front)).getLastD 0 =
      (0 :: others).getLastD 0 + byteSize front := by
    have filled : 0 :: others ≠ [] := List.cons_ne_nil 0 others
    rw [List.getLastD_eq_getLast?, List.getLast?_append, List.getLast?_map,
      List.getLastD_eq_getLast?, List.getLast?_eq_some_getLast filled]
    rfl
  have column (lineStart : Nat) := @slice?_between front source back lineStart offset within
  have whole : (ofText (front ++ source ++ back)).source = front ++ source ++ back := rfl
  have alone : (ofText source).source = source := rfl
  simp only [position, whole, alone, Nat.min_eq_left inside, Nat.min_eq_left within, begun, own,
    lineStart, column, Nat.add_sub_add_right, Displacement.position, Displacement.behind,
    Position.mk.injEq, true_and, and_true]
  rw [List.length_append, List.length_map, List.length_cons, counted]
  omega

/-- A span of a source is moved with its ends. -/
theorem span_between (back : Text) {range : ByteRange} (starts : range.start ≤ byteSize source)
    (stops : range.stop ≤ byteSize source) :
    (ofText (front ++ source ++ back)).span ((Displacement.behind front).range range) =
      (Displacement.behind front).span ((ofText source).span range) :=
  congrArg₂ Span.mk (position_between closed back starts) (position_between closed back stops)

end LineIndex

/-- Behind whole lines a text keeps its last line. -/
theorem Element.lastLine_behind {front : Text}
    (closed : front = [] ∨ ∃ lines, front = lines ++ ['\n']) (text : Text) :
    lastLine (front ++ text) = lastLine text := by
  obtain ⟨head, whole, lone, begins⟩ := exists_lastLine text
  have opened : lastLine (front ++ head) = [] := by
    apply lastLine_eq_nil
    rcases begins with rfl | ⟨lines, rfl⟩
    · rwa [List.append_nil]
    · exact Or.inr ⟨front ++ lines, by simp⟩
  calc lastLine (front ++ text)
      = lastLine (front ++ head ++ lastLine text) := by rw [List.append_assoc, ← whole]
    _ = lastLine text := by rw [lastLine_append lone, opened, List.nil_append]

/-- Behind whole lines a place is moved as the source is. -/
theorem Position.behind_append {front : Text}
    (closed : front = [] ∨ ∃ lines, front = lines ++ ['\n']) (text : Text) :
    Position.behind (front ++ text) = (Displacement.behind front).position (.behind text) := by
  simp only [Position.behind, Displacement.position, Displacement.behind, Position.mk.injEq]
  refine ⟨?_, ?_, ?_⟩
  · rw [byteSize_append, Nat.add_comm]
  · rw [List.count_append, Nat.add_comm]
  · rw [Element.lastLine_behind closed]

namespace Element

/-- Blanks are looked for in the same text, which starts further on. -/
theorem blanksStart_between (front source back : Text) {bound start : Nat}
    (within : start ≤ byteSize source) :
    blanksStart (front ++ source ++ back) (bound + byteSize front) (start + byteSize front) =
      blanksStart source bound start + byteSize front := by
  rw [blanksStart, blanksStart, slice?_between front source back within]
  omega

variable {front source back : Text} {tag : ByteRange} {ranges : List ByteRange}

/-- A range that passes the check on a source passes it on a larger one. -/
theorem checkRange_between {range : ByteRange} (passed : checkRange source range = .ok ()) :
    checkRange (front ++ source ++ back) ((Displacement.behind front).range range) = .ok () := by
  obtain ⟨upper, inner, lower, rfl, rfl⟩ := checkRange_eq_ok_iff.mp passed
  refine checkRange_eq_ok_iff.mpr ⟨front ++ upper, inner, lower ++ back, by simp, ?_⟩
  simp [Displacement.range, Displacement.behind, Nat.add_comm]

variable (closed : front = [] ∨ ∃ lines, front = lines ++ ['\n'])

include closed

/-- An attribute that is resolved on a source is resolved on a larger one, and moved with it. -/
theorem resolveAttribute_between {bound : Nat} {range : ByteRange} {attr : Attribute}
    (resolved : resolveAttribute (.ofText source) tag bound range = .ok attr) :
    resolveAttribute (.ofText (front ++ source ++ back)) ((Displacement.behind front).range tag)
        (bound + byteSize front) ((Displacement.behind front).range range) =
      .ok ((Displacement.behind front).attr attr) := by
  obtain ⟨upper, body, lower, name, rfl, rfl, below, inside, above, named, rfl⟩ :=
    resolveAttribute_eq_ok_iff.mp resolved
  refine resolveAttribute_eq_ok_iff.mpr ⟨front ++ upper, body, lower ++ back, name, by simp, ?_, ?_,
    ?_, ?_, named, ?_⟩
  · simp [Displacement.range, Displacement.behind, Nat.add_comm]
  · simp only [Displacement.range, Displacement.behind, byteSize_append]
    omega
  · simp only [Displacement.range, Displacement.behind, byteSize_append] at inside ⊢
    omega
  · rw [byteSize_append]
    omega
  · have size : byteSize upper ≤ byteSize (upper ++ body ++ lower) := by
      simp only [byteSize_append]
      omega
    let gap : ByteRange :=
      ⟨blanksStart (upper ++ body ++ lower) bound (byteSize upper), byteSize upper⟩
    have starts : gap.start ≤ byteSize (upper ++ body ++ lower) :=
      Nat.le_trans (blanksStart_le above) size
    have blanks := LineIndex.span_between closed back starts size
    have moved : byteSize (front ++ upper) = byteSize upper + byteSize front := by
      rw [byteSize_append, Nat.add_comm]
    rw [moved, blanksStart_between front _ back size, List.append_assoc front upper body,
      Position.behind_append closed, Position.behind_append closed]
    exact congrArg _ blanks.symm

/-- Attributes that are resolved on a source are resolved on a larger one, and moved with it. -/
theorem attributesFrom_between {bound : Nat} {attributes : List Attribute}
    (resolved : attributesFrom (.ofText source) tag bound ranges = .ok attributes) :
    attributesFrom (.ofText (front ++ source ++ back)) ((Displacement.behind front).range tag)
        (bound + byteSize front) (ranges.map (Displacement.behind front).range) =
      .ok (attributes.map (Displacement.behind front).attr) := by
  induction ranges generalizing bound attributes with
  | nil =>
      obtain rfl := Except.ok.inj resolved
      rfl
  | cons range ranges inductionHypothesis =>
      obtain ⟨first, others, head, remaining, rfl⟩ := attributesFrom_cons_eq_ok_iff.mp resolved
      exact attributesFrom_cons_eq_ok_iff.mpr ⟨_, _, resolveAttribute_between closed head,
        inductionHypothesis remaining, rfl⟩

/-- The indent is read off the same line. -/
theorem indentOf_between {bound : Nat} {attributes : List Attribute}
    (resolved : attributesFrom (.ofText source) tag bound ranges = .ok attributes) :
    indentOf (front ++ source ++ back) (ranges.map (Displacement.behind front).range) =
      indentOf source ranges := by
  cases ranges with
  | nil => rfl
  | cons range ranges =>
      obtain ⟨first, _, head, _, rfl⟩ := attributesFrom_cons_eq_ok_iff.mp resolved
      obtain ⟨upper, body, lower, _, rfl, rfl, _⟩ := resolveAttribute_eq_ok_iff.mp head
      have cut : front ++ (upper ++ body ++ lower) ++ back =
          front ++ upper ++ (body ++ lower ++ back) := by simp
      have moved : byteSize upper + byteSize front = byteSize (front ++ upper) := by
        rw [byteSize_append, Nat.add_comm]
      simp only [List.map_cons, indentOf, Displacement.range, Displacement.behind]
      rw [cut, moved, before_append, lastLine_behind closed, List.append_assoc, before_append]

end Element

namespace Displacement

variable (move : Displacement)

/-- Groups are made by comparing lines, so they are moved with their attributes. -/
theorem groupByLine_map (attributes : List Attribute) :
    groupByLine (attributes.map move.attr) = (groupByLine attributes).map move.group := by
  have joins (first second : Attribute) :
      (move.attr first).continues (move.attr second) = first.continues second := by
    rw [Bool.eq_iff_iff]
    simp [Attribute.continues, Attribute.startLine, Attribute.stopLine, attr, span, position]
  induction attributes with
  | nil => rfl
  | cons first others inductionHypothesis =>
      change LineGroup.prepend (move.attr first) (groupByLine (others.map move.attr)) =
        (LineGroup.prepend first (groupByLine others)).map move.group
      rw [inductionHypothesis]
      cases groupByLine others with
      | nil => rfl
      | cons group groups =>
          simp only [List.map_cons, LineGroup.prepend]
          rw [show (move.group group).first = move.attr group.first from rfl, joins]
          split <;> rfl

/-- The violations of a group are moved with it. -/
theorem violations_group (limit : LineLimit) (indent : Text) (lineEnding : LineEnding)
    (group : LineGroup) :
    (move.group group).violations limit indent lineEnding =
      (group.violations limit indent lineEnding).map move.violation := by
  have attributes : (move.group group).attributes = group.attributes.map move.attr := rfl
  have length : (move.group group).length = group.length := by
    rw [LineGroup.length, attributes, List.length_map, LineGroup.length]
  have indents (own : Attribute) :
      (move.group group).indentFor indent (move.attr own) = group.indentFor indent own := by
    have level : (move.attr own).startLine = (move.group group).line ↔ own.startLine = group.line :=
      Nat.add_right_cancel_iff
    exact if_congr level rfl rfl
  rw [LineGroup.violations, LineGroup.violations, length, attributes]
  split
  · rfl
  · rw [← List.map_drop, List.map_map, List.map_map]
    refine List.map_congr_left fun own _ => ?_
    simp only [Function.comp_apply, indents]
    rfl

/-- The violations of an element are moved with it. -/
theorem check_element (config : RuleConfig) (element : Element) :
    Rule.check config (move.element element) = (Rule.check config element).map move.violation := by
  have empty : (move.element element).isEmpty = element.isEmpty := by
    simp [Element.isEmpty, Displacement.element]
  have multiline : (move.element element).isMultiline = element.isMultiline := by
    rw [Bool.eq_iff_iff]
    simp [Element.isMultiline, Span.isMultiline, Displacement.element, span, position]
  rw [Rule.check, Rule.check, empty, multiline]
  split
  · rfl
  · dsimp only
    split
    · rw [show (move.element element).attributes = element.attributes.map move.attr from rfl,
        groupByLine_map, planBreaks, planBreaks, List.flatMap_map, List.map_flatMap]
      congr 1
      funext group
      exact move.violations_group _ _ _ group
    · rfl

end Displacement

/-- What an element is and what is reported about it depends on its own lines only. A tag that is
    accepted on a source is accepted on every larger one that has whole lines in front of the source
    and anything behind it. The element is the same but for its place: all offsets are moved by the
    bytes in front of the source and all lines by the line feeds there. Every configuration reports
    the same violations at the moved places. -/
theorem surroundings_immaterial {source : Text} {ranges : TagRanges} {element : Element}
    (accepted : ranges.Accepted source element) {front : Text}
    (closed : front = [] ∨ ∃ lines, front = lines ++ ['\n']) (back : Text) (config : RuleConfig) :
    let move := Displacement.behind front
    (move.tag ranges).Accepted (front ++ source ++ back) (move.element element) ∧
      Rule.check config (move.element element) =
        (Rule.check config element).map move.violation := by
  intro move
  refine ⟨?_, move.check_element config element⟩
  obtain ⟨passed, attributes, resolved, rfl⟩ := Element.ofRanges_eq_ok_iff.mp accepted
  obtain ⟨upper, inner, lower, whole, tag⟩ := Element.checkRange_eq_ok_iff.mp passed
  have sizes := congrArg byteSize whole
  simp only [byteSize_append] at sizes
  have starts : ranges.tag.start ≤ byteSize source := by rw [tag]; dsimp only; omega
  have stops : ranges.tag.stop ≤ byteSize source := by
    rw [tag]
    simp only [byteSize_append]
    omega
  have bound : ranges.tag.start + 1 + byteSize front = (move.range ranges.tag).start + 1 :=
    Nat.add_right_comm _ _ _
  refine Element.ofRanges_eq_ok_iff.mpr ⟨Element.checkRange_between passed, _,
    bound ▸ Element.attributesFrom_between closed resolved, ?_⟩
  simp only [Displacement.tag, Displacement.element, Element.mk.injEq]
  exact ⟨(LineIndex.span_between closed back starts stops).symm, rfl,
    (Element.indentOf_between closed resolved).symm⟩

/-- A tag that starts with a character of two bytes, so that the blanks of its first attribute start
    inside that character, behind two lines and in front of more text on its last line. -/
theorem surroundings_immaterial_wide :
    let move := Displacement.behind "日\n\n".toList
    ∃ element,
      TagRanges.Accepted "\u00A0\tb\tc".toList ⟨⟨0, 6⟩, [⟨3, 4⟩, ⟨5, 6⟩]⟩ element ∧
      TagRanges.Accepted ("日\n\n".toList ++ "\u00A0\tb\tc".toList ++ " d\n".toList)
        ⟨⟨5, 11⟩, [⟨8, 9⟩, ⟨10, 11⟩]⟩ (move.element element) ∧
      Rule.check .default (move.element element) =
        (Rule.check .default element).map move.violation ∧
      (Rule.check .default element).length = 1 := by
  have built : ∃ element,
      TagRanges.Accepted "\u00A0\tb\tc".toList ⟨⟨0, 6⟩, [⟨3, 4⟩, ⟨5, 6⟩]⟩ element ∧
      (Rule.check .default element).length = 1 := ⟨_, rfl, by decide⟩
  obtain ⟨element, accepted, single⟩ := built
  have closed : ∃ lines, "日\n\n".toList = lines ++ ['\n'] := ⟨"日\n".toList, by decide⟩
  obtain ⟨again, same⟩ := surroundings_immaterial accepted (Or.inr closed) " d\n".toList .default
  exact ⟨element, accepted, again, same, single⟩

end TagWrap
