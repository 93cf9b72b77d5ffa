import TagWrap.Proofs.Carry
import TagWrap.Proofs.NewLines

/-!
# Moved attributes line up

An edit breaks the line in front of an attribute and puts an indent there. The indent has no line
feed, so in the fixed source it is all that stands in front of the attribute on its line: nothing
for an attribute that followed the last line of a value, and the indent of the tag for any other.

The indent of a tag is the line in front of its first attribute with all but the tabs made blank.
Tabs count for their stops and all other characters for one column, so the indent is as long as
that line and reaches as far on a display, whatever the tab width. And the first attribute stays in
its place, so the attributes that move behind the indent of the tag stand below it.
-/
namespace TagWrap

open Text

/-- The display column behind a character. A tab leads to the next tab stop, any other character
    leads one column further. -/
def advance (width column : Nat) (char : Char) : Nat :=
  if char = '\t' then (column / width + 1) * width else column + 1

/-- The display column that a line leads to. -/
def displayColumn (width : Nat) (line : Text) : Nat := line.foldl (advance width) 0

/-- An indent leads to the same display column as the line that it stands under. -/
theorem displayColumn_indentUnder (width : Nat) (line : Text) :
    displayColumn width (Element.indentUnder line) = displayColumn width line := by
  have same : (fun column char => advance width column (if char = '\t' then '\t' else ' ')) =
      advance width := by
    funext column char
    by_cases tab : char = '\t'
    · rw [if_pos tab, tab]
    · rw [if_neg tab, advance, advance, if_neg tab, if_neg (by decide)]
  rw [displayColumn, Element.indentUnder, List.foldl_map, same, displayColumn]

/-- The text of a span of a source stands at an offset of another text. -/
def KeptAt (source text : Text) (span : Span) (start : Nat) : Prop :=
  ∃ body, slice? source span.start.offset span.stop.offset = some body ∧
    slice? text start (start + byteSize body) = some body

/-- A line ending ends in a line feed. -/
theorem LineEnding.exists_text (lineEnding : LineEnding) :
    ∃ front, lineEnding.text = front ++ ['\n'] := by
  cases lineEnding with
  | lf => exact ⟨[], rfl⟩
  | crlf => exact ⟨['\r'], rfl⟩

/-- A violation is that of an attribute of a group, with the indent for it. -/
theorem Rule.exists_group {config : RuleConfig} {element : Element} {violation : Violation}
    (found : violation ∈ Rule.check config element) :
    ∃ group ∈ groupByLine element.attributes, ∃ attr ∈ group.attributes,
      violation = breakBefore config.lineEnding (group.indentFor element.indent attr) attr := by
  rw [check] at found
  split at found
  · contradiction
  · dsimp only at found
    split at found
    next enforced =>
      obtain ⟨group, listed, own⟩ := List.mem_flatMap.mp found
      rw [LineGroup.violations_eq_drop enforced] at own
      obtain ⟨attr, excess, rfl⟩ := List.mem_map.mp own
      exact ⟨group, listed, attr, List.mem_of_mem_drop excess, rfl⟩
    · contradiction

namespace Placement

/-- The violations of pieces in a row are those of the first ones and then those of the others. -/
theorem violationsAt_append (lineEnding : LineEnding) (front : Text)
    (before after : List Placement) :
    violationsAt lineEnding front (before ++ after) = violationsAt lineEnding front before ++
      violationsAt lineEnding (front ++ Piece.flat (pieces before)) after := by
  induction before generalizing front with
  | nil => simp [violationsAt]
  | cons placement others inductionHypothesis =>
      simp [violationsAt, inductionHypothesis]

/-- What stands in front of an attribute once the pieces before it and its own are settled. -/
def settledFront (lineEnding : LineEnding) (front : Text) (before : List Placement)
    (placement : Placement) : Text :=
  front ++ Piece.flat (settledPieces lineEnding before) ++ (placement.settled lineEnding).gap

/-- The line in front of an attribute that was moved is the indent of its edit. -/
theorem lastLine_settledFront {lineEnding : LineEnding} {front indent : Text}
    {before : List Placement} {placement : Placement} (moves : placement.indent? = some indent)
    (lineless : '\n' ∉ indent) :
    Element.lastLine (settledFront lineEnding front before placement) = indent := by
  obtain ⟨shown, broken⟩ := lineEnding.exists_text
  have cut : settledFront lineEnding front before placement =
      front ++ Piece.flat (settledPieces lineEnding before) ++ trimEnd placement.piece.gap ++
        shown ++ '\n' :: indent := by
    simp [settledFront, settled, moves, broken]
  rw [cut, Element.lastLine_of_broken lineless]

end Placement

namespace Layout

variable {config : RuleConfig} {layout : Layout} {before after : List Placement}
  {placement : Placement}

/-- The tag where it stood, with its pieces settled. -/
def settledInPlace (config : RuleConfig) (layout : Layout) : Layout :=
  layout.settle config layout.front layout.back

/-- The edits of a tag, made alone, settle its pieces in place. -/
theorem applyAll_edits (config : RuleConfig) (layout : Layout) :
    Edit.applyAll layout.source (layout.edits config) =
      .ok (layout.settledInPlace config).source := by
  have spliced := (Edit.Spliced.rest 0 layout.front).append <|
    (Nat.zero_add (byteSize layout.front)).symm ▸
      (layout.spliced_inner config layout.front layout.back).append (.rest _ layout.back)
  rw [List.nil_append, List.append_nil] at spliced
  apply Edit.applyAll_eq_ok_iff.mpr
  refine ⟨layout.edits config, .refl _, layout.edits_precede config, ?_⟩
  rw [source, List.append_assoc, source, List.append_assoc]
  exact spliced

/-- An attribute is carried behind what stands in front of it once all pieces are settled. -/
theorem carry_attribute (placed : layout.placements config = before ++ placement :: after) :
    Edit.carry (layout.edits config)
        (byteSize (layout.front ++ Piece.flat (Placement.pieces before) ++ placement.piece.gap)) =
      byteSize (Placement.settledFront config.lineEnding layout.front before placement) := by
  let text := layout.front ++ Piece.flat (Placement.pieces before)
  let low := (Placement.violationsAt config.lineEnding layout.front before).map Violation.edit
  let high := (Placement.violationsAt config.lineEnding
    (text ++ placement.piece.gap ++ placement.piece.body) after).map Violation.edit
  have parted : layout.edits config =
      low ++ (placement.violations config.lineEnding text).map Violation.edit ++ high := by
    rw [edits, check_element, placed, Placement.violationsAt_append, Placement.violationsAt]
    simp [low, high, text]
  have spliced := Placement.spliced_violationsAt config.lineEnding layout.front before
  have below : ∀ edit ∈ low, edit.stop ≤ byteSize text := by
    intro edit member
    rw [byteSize_append]
    exact (spliced.bounds edit member).2.2
  have above : ∀ edit ∈ high, byteSize text + byteSize placement.piece.gap < edit.stop := by
    intro edit member
    have bounded := Placement.violationsAt_bounds member
    have filled := placement.piece.byteSize_body_pos
    simp only [byteSize_append] at bounded
    omega
  have moved : (byteSize (layout.front ++
      Piece.flat (Placement.settledPieces config.lineEnding before)) : Int) =
        byteSize text + Edit.totalGrowth low := by
    have grown := spliced.byteSize_result
    simp only [text, low, byteSize_append]
    push_cast
    omega
  rw [parted, byteSize_append text, Placement.carry_attribute below above moved,
    Placement.settledFront, byteSize_append _ (placement.settled config.lineEnding).gap]

/-- The fixed source, cut at an attribute. -/
theorem source_settledInPlace (placed : layout.placements config = before ++ placement :: after) :
    (layout.settledInPlace config).source =
      Placement.settledFront config.lineEnding layout.front before placement ++
        placement.piece.body ++ (Piece.flat (Placement.settledPieces config.lineEnding after) ++
          layout.tail ++ layout.back) := by
  change layout.front ++ (Piece.flat (Placement.settledPieces config.lineEnding
    (layout.placements config)) ++ layout.tail) ++ layout.back = _
  rw [placed]
  simp [Placement.settledPieces, Placement.settledFront]

/-- Where an attribute stands once all pieces are settled: its text is kept, behind the settled
    pieces before it and its own settled gap. -/
theorem settled_at (placed : layout.placements config = before ++ placement :: after) {span : Span}
    (spanned : span = (placement.piece.attributeAt
      (layout.front ++ Piece.flat (Placement.pieces before))).span) :
    let fixed := (layout.settledInPlace config).source
    let start := Edit.carry (layout.edits config) span.start.offset
    let settled := Placement.settledFront config.lineEnding layout.front before placement
    KeptAt layout.source fixed span start ∧ start = byteSize settled ∧
      Text.before fixed start = settled ∧
      (LineIndex.ofText fixed).position start = .behind settled := by
  intro fixed start settled
  have cut : fixed = settled ++ placement.piece.body ++ _ := source_settledInPlace placed
  have starts : start = byteSize settled := by
    have carried := carry_attribute placed
    rw [← carried]
    simp only [start, spanned]
    rfl
  refine ⟨⟨placement.piece.body, ?_, ?_⟩, starts, ?_, ?_⟩
  · rw [spanned]
    apply slice?_eq_some.mpr
    exact ⟨_, _, source_placed placed, rfl, (byteSize_append _ _).symm⟩
  · apply slice?_eq_some.mpr
    exact ⟨_, _, cut, starts.symm, rfl⟩
  · rw [starts, cut, List.append_assoc, before_append]
  · rw [starts, cut, List.append_assoc, LineIndex.position_append]

/-- The first attribute of a tag is that of its first piece, and nothing moves before it. -/
theorem exists_first (config : RuleConfig) {first : Attribute}
    (opens : first ∈ layout.element.attributes.head?) :
    ∃ piece after, layout.placements config = [] ++ ⟨piece, none⟩ :: after ∧
      layout.element.indent =
        Element.indentUnder (Element.lastLine (layout.front ++ piece.gap)) ∧
      first.span = (piece.attributeAt layout.front).span := by
  cases drawn : layout.pieces with
  | nil => simp [element, drawn] at opens
  | cons piece others =>
      simp only [element, drawn, List.head?_cons, Option.mem_def, Option.some.injEq] at opens ⊢
      subst opens
      exact ⟨piece, _, by rw [placements, drawn]; rfl, rfl, rfl⟩

/-- The first attribute of a tag stays in its place. The indent of the tag is as long as the line in
    front of it and leads as far on a display. -/
theorem first_in_place (config : RuleConfig) {first : Attribute}
    (opens : first ∈ layout.element.attributes.head?) :
    let fixed := (layout.settledInPlace config).source
    KeptAt layout.source fixed first.span first.span.start.offset ∧
      Edit.carry (layout.edits config) first.span.start.offset = first.span.start.offset ∧
      (LineIndex.ofText fixed).span first.span.range = first.span ∧
      layout.element.indent.length = first.startColumn ∧
      ∀ width, displayColumn width layout.element.indent = displayColumn width
        (Element.lastLine (Text.before layout.source first.span.start.offset)) := by
  intro fixed
  obtain ⟨piece, after, placed, indent, spanned⟩ := exists_first config opens
  have settled : Placement.settledFront config.lineEnding layout.front [] ⟨piece, none⟩ =
      layout.front ++ piece.gap := by
    simp [Placement.settledFront, Placement.settled]
  have offset : first.span.start.offset = byteSize (layout.front ++ piece.gap) := by
    rw [spanned]
    rfl
  obtain ⟨kept, start, -, -⟩ := settled_at placed (by simpa using spanned)
  rw [settled, ← offset] at start
  obtain ⟨rest, cut⟩ : ∃ rest, fixed = layout.front ++ piece.gap ++ piece.body ++ rest :=
    ⟨_, settled ▸ source_settledInPlace placed⟩
  have line : Text.before layout.source first.span.start.offset = layout.front ++ piece.gap := by
    rw [offset, source_placed placed, Placement.pieces_nil, Piece.flat_nil, List.append_nil,
      List.append_assoc _ piece.body, before_append]
  refine ⟨start ▸ kept, start, ?_, ?_, ?_⟩
  · have range : first.span.range = ⟨byteSize (layout.front ++ piece.gap),
        byteSize (layout.front ++ piece.gap ++ piece.body)⟩ := by
      rw [spanned]
      rfl
    rw [range, cut, LineIndex.span_append, spanned]
    rfl
  · rw [indent, Element.indentUnder, List.length_map, Attribute.startColumn, spanned]
    rfl
  · intro width
    rw [indent, displayColumn_indentUnder, line]

/-- A violation is that of an attribute that stands behind the indent for it in the fixed source. -/
theorem moved_lines_up {violation : Violation}
    (found : violation ∈ Rule.check config layout.element) :
    ∃ group ∈ groupByLine layout.element.attributes, ∃ attr ∈ group.attributes,
      violation = breakBefore config.lineEnding (group.indentFor layout.element.indent attr) attr ∧
      let fixed := (layout.settledInPlace config).source
      let start := Edit.carry (layout.edits config) attr.span.start.offset
      KeptAt layout.source fixed attr.span start ∧
        Element.lastLine (Text.before fixed start) =
          group.indentFor layout.element.indent attr ∧
        ((LineIndex.ofText fixed).position start).column =
          (group.indentFor layout.element.indent attr).length := by
  obtain ⟨group, listed, attr, member, drawn⟩ := Rule.exists_group found
  obtain ⟨before, placement, after, indent, placed, -, moves, planned⟩ := exists_move found
  have same := planned.symm.trans drawn
  have indents : indent = group.indentFor layout.element.indent attr :=
    List.append_cancel_left (congrArg (fun violation => violation.edit.replacement) same)
  have spanned : attr.span = (placement.piece.attributeAt (layout.front ++
      Piece.flat (Placement.pieces before))).span := (congrArg Violation.location same).symm
  have lineless : '\n' ∉ indent := by
    obtain ⟨-, own | none⟩ := moves_placements (by rw [placed]; simp) moves
    · rw [own]
      exact layout.feed_not_mem_indent
    · rw [none]
      exact List.not_mem_nil
  obtain ⟨kept, -, front, position⟩ := settled_at placed spanned
  refine ⟨group, listed, attr, member, drawn, kept, ?_, ?_⟩
  · rw [front, Placement.lastLine_settledFront moves lineless, indents]
  · rw [position, Position.behind, Placement.lastLine_settledFront moves lineless, indents]

end Layout

/-- Attributes that the fix of a tag moves line up. In the fixed source the first attribute of the
    tag stands where it stood. Each attribute that moves stands behind the indent of the tag alone
    if it started on the first line of its group, and at the start of a line otherwise. So its
    column is that of the first attribute, or zero. On a display the indent leads to the column of
    the first attribute, whatever the tab width. -/
theorem moved_attributes_line_up {source : Text} {ranges : TagRanges} {element : Element}
    (config : RuleConfig) (accepted : ranges.Accepted source element) :
    let edits := (Rule.check config element).map Violation.edit
    ∃ fixed, Edit.applyAll source edits = .ok fixed ∧
      (∀ first ∈ element.attributes.head?,
        KeptAt source fixed first.span first.span.start.offset ∧
        Edit.carry edits first.span.start.offset = first.span.start.offset ∧
        (LineIndex.ofText fixed).span first.span.range = first.span ∧
        ∀ width, displayColumn width element.indent =
          displayColumn width (Element.lastLine (before source first.span.start.offset))) ∧
      ∀ violation ∈ Rule.check config element,
        ∃ group ∈ groupByLine element.attributes, ∃ attr ∈ group.attributes,
          ∃ first ∈ element.attributes.head?,
          violation =
            breakBefore config.lineEnding (group.indentFor element.indent attr) attr ∧
          let start := Edit.carry edits attr.span.start.offset
          KeptAt source fixed attr.span start ∧
            Element.lastLine (before fixed start) =
              (if attr.startLine = group.line then element.indent else []) ∧
            ((LineIndex.ofText fixed).position start).column =
              if attr.startLine = group.line then first.startColumn else 0 := by
  obtain ⟨layout, rfl, rfl, rfl⟩ := Layout.accepted_iff.mp accepted
  intro edits
  refine ⟨_, layout.applyAll_edits config, ?_, ?_⟩
  · intro first opens
    obtain ⟨kept, carried, span, -, shown⟩ := Layout.first_in_place config opens
    exact ⟨kept, carried, span, shown⟩
  · intro violation found
    obtain ⟨group, listed, attr, member, planned, kept, line, column⟩ :=
      Layout.moved_lines_up found
    obtain ⟨first, opens⟩ : ∃ first, first ∈ layout.element.attributes.head? := by
      cases drawn : layout.element.attributes with
      | nil =>
          rw [drawn] at listed
          contradiction
      | cons first others => exact ⟨first, rfl⟩
    have length := (Layout.first_in_place config opens).2.2.2.1
    refine ⟨group, listed, attr, member, first, opens, planned, kept, line, column.trans ?_⟩
    rw [LineGroup.indentFor]
    split
    · exact length
    · rfl

/-- Behind a tab and a character of two bytes one attribute moves below the first one. The next one
    follows the last line of its value and moves to the start of a line. -/
theorem moved_attributes_line_up_tabbed :
    ∃ element, TagRanges.Accepted "\t<A é b=\x7b\n\x7d c>".toList
        ⟨⟨1, 15⟩, [⟨4, 6⟩, ⟨7, 12⟩, ⟨13, 14⟩]⟩ element ∧
      (Rule.check ⟨.flat 1, .always, .lf⟩ element).length = 2 ∧
      let edits := (Rule.check ⟨.flat 1, .always, .lf⟩ element).map Violation.edit
      ∃ fixed, Edit.applyAll "\t<A é b=\x7b\n\x7d c>".toList edits = .ok fixed ∧
        ∀ violation ∈ Rule.check ⟨.flat 1, .always, .lf⟩ element,
          let start := Edit.carry edits violation.location.start.offset
          ((LineIndex.ofText fixed).position start).column = 4 ∨
            ((LineIndex.ofText fixed).position start).column = 0 := by
  have accepted : ∃ element, TagRanges.Accepted "\t<A é b=\x7b\n\x7d c>".toList
        ⟨⟨1, 15⟩, [⟨4, 6⟩, ⟨7, 12⟩, ⟨13, 14⟩]⟩ element ∧
      (Rule.check ⟨.flat 1, .always, .lf⟩ element).length = 2 ∧
      element.attributes.head?.map Attribute.startColumn = some 4 :=
    ⟨_, rfl, by decide +kernel, by decide +kernel⟩
  obtain ⟨element, built, moves, fourth⟩ := accepted
  obtain ⟨fixed, applied, -, lined⟩ :=
    moved_attributes_line_up ⟨.flat 1, .always, .lf⟩ built
  refine ⟨element, built, moves, fixed, applied, ?_⟩
  intro violation found
  obtain ⟨group, -, attr, -, first, opens, rfl, -, -, column⟩ := lined violation found
  have column_first : first.startColumn = 4 := by simpa [Option.mem_def.mp opens] using fourth
  rw [column_first] at column
  by_cases level : attr.startLine = group.line
  · exact Or.inl (column.trans (if_pos level))
  · exact Or.inr (column.trans (if_neg level))

end TagWrap
