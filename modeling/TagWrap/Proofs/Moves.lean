import TagWrap.Proofs.Batch
import TagWrap.Proofs.Placement

/-!
# Where the edits of a tag lie

The first attribute of a tag never moves, so there is an attribute before each one that does.
An edit covers nothing but blanks between these two. From that follow the places of all edits of
a tag: they come in the order of their attributes, they lie strictly inside the tag and none of
them reaches into an attribute.
-/
namespace TagWrap

open Text

namespace Piece

/-- The text of pieces in a row is that of the first ones and then that of the others. -/
@[simp] theorem flat_append (before after : List Piece) :
    flat (before ++ after) = flat before ++ flat after :=
  List.flatMap_append

theorem attributesAt_append (front : Text) (before after : List Piece) :
    attributesAt front (before ++ after) =
      attributesAt front before ++ attributesAt (front ++ flat before) after := by
  induction before generalizing front with
  | nil => simp [attributesAt]
  | cons piece others inductionHypothesis => simp [attributesAt, inductionHypothesis]

theorem ranges_append (offset : Nat) (before after : List Piece) :
    ranges offset (before ++ after) =
      ranges offset before ++ ranges (offset + byteSize (flat before)) after := by
  induction before generalizing offset with
  | nil => simp [ranges]
  | cons piece others inductionHypothesis => simp [ranges, inductionHypothesis, Nat.add_assoc]

/-- The ranges of attributes lie within their pieces, and none of them is empty. -/
theorem ranges_bounds {offset : Nat} {pieces : List Piece} {range : ByteRange}
    (member : range ∈ ranges offset pieces) :
    offset ≤ range.start ∧ range.start < range.stop ∧
      range.stop ≤ offset + byteSize (flat pieces) := by
  induction pieces generalizing offset with
  | nil => simp [ranges] at member
  | cons piece others inductionHypothesis =>
      have filled := piece.byteSize_body_pos
      rw [flat_cons, byteSize_append, byteSize_append]
      rcases List.mem_cons.mp member with rfl | later
      · dsimp only
        omega
      · have bounded := inductionHypothesis later
        omega

end Piece

namespace Placement

/-- The edits of pieces that stand behind a text do not start before its end. -/
theorem violationsAt_bounds {lineEnding : LineEnding} {front : Text} {placements : List Placement}
    {edit : Edit} (member : edit ∈ (violationsAt lineEnding front placements).map Violation.edit) :
    byteSize front ≤ edit.start ∧ edit.start ≤ edit.stop :=
  have bounded := (spliced_violationsAt lineEnding front placements).bounds edit member
  ⟨bounded.1, bounded.2.1⟩

/-- The edit of a piece stops where the attribute of the piece starts. -/
theorem stop_of_mem_violations {lineEnding : LineEnding} {front : Text} {placement : Placement}
    {edit : Edit} (member : edit ∈ (placement.violations lineEnding front).map Violation.edit) :
    edit.start ≤ edit.stop ∧ edit.stop = byteSize (front ++ placement.piece.gap) := by
  refine ⟨((spliced_violations lineEnding front placement).bounds edit member).2.1, ?_⟩
  unfold violations at member
  cases moves : placement.indent? with
  | none => simp [moves] at member
  | some indent =>
      rw [moves, List.map_singleton, List.mem_singleton] at member
      rw [member]
      rfl

/-- The edits of pieces in a row are in increasing order. An attribute stands between any two of
    them, and it is not empty. -/
theorem pairwise_violationsAt (lineEnding : LineEnding) (front : Text)
    (placements : List Placement) :
    ((violationsAt lineEnding front placements).map Violation.edit).Pairwise Edit.Precedes := by
  induction placements generalizing front with
  | nil => exact .nil
  | cons placement others inductionHypothesis =>
      have filled := placement.piece.byteSize_body_pos
      rw [violationsAt, List.map_append]
      refine List.pairwise_append.mpr ⟨?_, inductionHypothesis _, ?_⟩
      · unfold violations
        cases placement.indent? <;> simp
      · intro own ownMember other otherMember
        have below := stop_of_mem_violations ownMember
        have above := (violationsAt_bounds otherMember).1
        rw [byteSize_append (front ++ placement.piece.gap)] at above
        exact ⟨by omega, by omega⟩

end Placement

namespace Layout

variable {config : RuleConfig} {layout : Layout} {violation : Violation} {edit : Edit}

/-- The edits of a tag, in the order of its attributes. -/
def edits (config : RuleConfig) (layout : Layout) : List Edit :=
  (Rule.check config layout.element).map Violation.edit

/-- The edits of a tag settle its pieces. -/
theorem spliced_edits (config : RuleConfig) (layout : Layout) :
    Edit.Spliced (byteSize layout.front) (Piece.flat layout.pieces) (layout.edits config)
      (Piece.flat (Placement.settledPieces config.lineEnding (layout.placements config))) := by
  have spliced := Placement.spliced_violationsAt config.lineEnding layout.front
    (layout.placements config)
  rwa [pieces_placements, ← check_element] at spliced

/-- The pieces of a tag, cut at one of them. -/
theorem pieces_placed {before after : List Placement} {placement : Placement}
    (placed : layout.placements config = before ++ placement :: after) :
    layout.pieces = Placement.pieces before ++ placement.piece :: Placement.pieces after := by
  rw [← pieces_placements config, placed]
  simp [Placement.pieces]

/-- The source of a tag, cut at an attribute. -/
theorem source_placed {before after : List Placement} {placement : Placement}
    (placed : layout.placements config = before ++ placement :: after) :
    layout.source = layout.front ++ Piece.flat (Placement.pieces before) ++ placement.piece.gap ++
      placement.piece.body ++
        (Piece.flat (Placement.pieces after) ++ layout.tail ++ layout.back) := by
  rw [source, inner, pieces_placed placed]
  simp

/-- A violation belongs to a piece that moves, and other pieces stand before it. -/
theorem exists_move (found : violation ∈ Rule.check config layout.element) :
    ∃ before placement after indent, layout.placements config = before ++ placement :: after ∧
      before ≠ [] ∧ placement.indent? = some indent ∧
      violation = breakBefore config.lineEnding indent (placement.piece.attributeAt
        (layout.front ++ Piece.flat (Placement.pieces before))) := by
  rw [check_element] at found
  obtain ⟨before, placement, after, indent, placed, moves, rfl⟩ :=
    Placement.mem_violationsAt found
  refine ⟨before, placement, after, indent, placed, ?_, moves, rfl⟩
  rintro rfl
  unfold placements at placed
  cases drawn : layout.pieces with
  | nil => simp [drawn] at placed
  | cons first others =>
      -- The first decision is that of the first attribute, which stays.
      simp only [drawn, List.nil_append, List.cons.injEq] at placed
      rw [← placed.1] at moves
      contradiction

/-- An edit covers the blanks at the end of a gap, and it stands behind the piece before. -/
theorem exists_gap (member : edit ∈ layout.edits config) :
    ∃ before piece after, layout.pieces = before ++ piece :: after ∧ before ≠ [] ∧
      edit.start = byteSize (layout.front ++ Piece.flat before ++ trimEnd piece.gap) ∧
      edit.stop = byteSize (layout.front ++ Piece.flat before ++ piece.gap) := by
  obtain ⟨violation, found, rfl⟩ := List.mem_map.mp member
  obtain ⟨before, placement, after, indent, placed, behind, moves, rfl⟩ := exists_move found
  refine ⟨Placement.pieces before, placement.piece, Placement.pieces after, pieces_placed placed,
    ?_, rfl, rfl⟩
  simpa [Placement.pieces] using behind

/-- The edits of a tag are in increasing order. -/
theorem edits_precede (config : RuleConfig) (layout : Layout) :
    (layout.edits config).Pairwise Edit.Precedes := by
  rw [edits, check_element]
  exact Placement.pairwise_violationsAt _ _ _

/-- An edit lies strictly inside the tag. -/
theorem edit_inside (member : edit ∈ layout.edits config) :
    layout.ranges.tag.start < edit.start ∧ edit.start ≤ edit.stop ∧
      edit.stop < layout.ranges.tag.stop := by
  obtain ⟨before, piece, after, drawn, behind, starts, stops⟩ := exists_gap member
  have opening : 0 < byteSize (Piece.flat before) := by
    obtain ⟨first, others, rfl⟩ := List.exists_cons_of_ne_nil behind
    have filled := first.byteSize_body_pos
    rw [Piece.flat_cons, byteSize_append, byteSize_append]
    omega
  have filled := piece.byteSize_body_pos
  obtain ⟨blanks, trimmed, _⟩ := exists_trimEnd piece.gap
  have width : byteSize piece.gap = byteSize (trimEnd piece.gap) + byteSize blanks := by
    rw [← byteSize_append, ← trimmed]
  have tagStart : layout.ranges.tag.start = byteSize layout.front := rfl
  have tagStop : layout.ranges.tag.stop = byteSize (layout.front ++ layout.inner) := rfl
  rw [tagStart, tagStop, starts, stops, inner, drawn]
  simp only [byteSize_append, Piece.flat_append, Piece.flat_cons]
  omega

/-- An edit does not reach into an attribute of its tag. -/
theorem edit_clear (member : edit ∈ layout.edits config) {range : ByteRange}
    (inside : range ∈ layout.ranges.attributes) :
    edit.stop ≤ range.start ∨ range.stop ≤ edit.start := by
  obtain ⟨before, piece, after, drawn, -, starts, stops⟩ := exists_gap member
  have listed : range ∈ Piece.ranges (byteSize layout.front) (before ++ piece :: after) :=
    drawn ▸ inside
  rw [byteSize_append, byteSize_append] at starts stops
  rw [Piece.ranges_append, List.mem_append, Piece.ranges, List.mem_cons] at listed
  rcases listed with earlier | rfl | later
  · have bounded := Piece.ranges_bounds earlier
    omega
  · dsimp only
    omega
  · have bounded := Piece.ranges_bounds later
    omega

/-- An edit for accepted elements is an edit of one of their tags, drawn on the source. -/
theorem exists_drawn {source : Text} {elements : List Element}
    (accepted : ∀ element ∈ elements, ∃ ranges : TagRanges, ranges.Accepted source element)
    (planned : edit ∈ (Rule.checkAll config elements).map Violation.edit) :
    ∃ layout : Layout, layout.source = source ∧ layout.element ∈ elements ∧
      edit ∈ layout.edits config := by
  obtain ⟨violation, found, rfl⟩ := List.mem_map.mp planned
  obtain ⟨element, listed, own⟩ := List.mem_flatMap.mp found
  obtain ⟨ranges, built⟩ := accepted element listed
  obtain ⟨layout, drawn, -, rfl⟩ := accepted_iff.mp built
  exact ⟨layout, drawn, listed, List.mem_map_of_mem own⟩

/-- The span of an edit is a span of the source. -/
theorem edit_fits (member : edit ∈ layout.edits config) : Edit.Fits layout.source edit := by
  have spliced := (layout.spliced_edits config).fits layout.front (layout.tail ++ layout.back) rfl
    edit member
  have whole : layout.front ++ Piece.flat layout.pieces ++ (layout.tail ++ layout.back) =
      layout.source := by
    simp [source, inner]
  rwa [whole] at spliced

/-- An edit takes blanks out of a line and puts a line break there, with the indent of the tag or
    none behind it. -/
theorem exists_taken (member : edit ∈ layout.edits config) :
    ∃ indent gone, Edit.Takes layout.source edit gone ∧ '\n' ∉ gone ∧
      (∀ char ∈ gone, isBlank char = true) ∧
      edit.replacement = config.lineEnding.text ++ indent ∧
      (indent = layout.element.indent ∨ indent = []) := by
  obtain ⟨violation, found, rfl⟩ := List.mem_map.mp member
  obtain ⟨before, placement, after, indent, placed, -, moves, rfl⟩ := exists_move found
  obtain ⟨blanks, trimmed, blank⟩ := exists_trimEnd placement.piece.gap
  have listed : placement ∈ layout.placements config := by simp [placed]
  obtain ⟨joined, indented⟩ := moves_placements listed moves
  have lineless : '\n' ∉ blanks := by
    intro feed
    rw [trimmed] at joined
    exact joined (List.mem_append_right _ feed)
  refine ⟨indent, blanks, ⟨layout.front ++ Piece.flat (Placement.pieces before) ++
    trimEnd placement.piece.gap, placement.piece.body ++ Piece.flat (Placement.pieces after) ++
      layout.tail ++ layout.back, ?_, rfl, ?_⟩, lineless, blank, rfl, indented⟩
  · have gap : placement.piece.gap = trimEnd placement.piece.gap ++ blanks := trimmed
    rw [source_placed placed]
    nth_rewrite 1 [gap]
    simp
  · change byteSize (_ ++ trimEnd placement.piece.gap) + byteSize blanks =
      byteSize (_ ++ placement.piece.gap)
    rw [← byteSize_append, List.append_assoc _ (trimEnd _), ← trimmed]

/-- An attribute stands directly before each piece but the first one. -/
theorem exists_previous {first : Attribute} {front : Text}
    (stops : first.span.stop.offset = byteSize front) (pieces : List Piece) :
    ∃ earlier previous, first :: Piece.attributesAt front pieces = earlier ++ [previous] ∧
      previous.span.stop.offset = byteSize (front ++ Piece.flat pieces) := by
  rcases List.eq_nil_or_concat pieces with rfl | ⟨others, last, rfl⟩
  · exact ⟨[], first, rfl, by simpa using stops⟩
  · refine ⟨first :: Piece.attributesAt front others, last.attributeAt (front ++ Piece.flat others),
      ?_, ?_⟩
    · simp [Piece.attributesAt_append, Piece.attributesAt]
    · simp [Piece.attributeAt, Position.behind]

/-- The edit of an attribute lies between the attribute before it and its own. -/
theorem move_between (found : violation ∈ Rule.check config layout.element) :
    ∃ earlier previous own later, layout.element.attributes = earlier ++ previous :: own :: later ∧
      violation.subject = own.name ∧ violation.location = own.span ∧
      previous.span.stop.offset ≤ violation.edit.start ∧
      violation.edit.stop = own.span.start.offset := by
  obtain ⟨before, placement, after, indent, placed, behind, -, rfl⟩ := exists_move found
  obtain ⟨head, others, rfl⟩ := List.exists_cons_of_ne_nil behind
  have drawn : layout.pieces = head.piece ::
      (Placement.pieces others ++ placement.piece :: Placement.pieces after) :=
    pieces_placed placed
  have listed : layout.element.attributes = layout.firstAttribute head.piece ::
      Piece.attributesAt (layout.front ++ head.piece.gap ++ head.piece.body)
        (Placement.pieces others ++ placement.piece :: Placement.pieces after) := by
    simp [element, drawn]
  have stops : (layout.firstAttribute head.piece).span.stop.offset =
      byteSize (layout.front ++ head.piece.gap ++ head.piece.body) := rfl
  obtain ⟨earlier, previous, ahead, ends⟩ := exists_previous stops (Placement.pieces others)
  have place : layout.front ++ Piece.flat (Placement.pieces (head :: others)) =
      layout.front ++ head.piece.gap ++ head.piece.body ++
        Piece.flat (Placement.pieces others) := by
    simp
  refine ⟨earlier, previous, placement.piece.attributeAt
    (layout.front ++ Piece.flat (Placement.pieces (head :: others))),
    Piece.attributesAt (layout.front ++ Piece.flat (Placement.pieces (head :: others)) ++
      placement.piece.gap ++ placement.piece.body) (Placement.pieces after), ?_, rfl, rfl, ?_, rfl⟩
  · rw [listed, Piece.attributesAt_append, ← List.cons_append, ahead, place, Piece.attributesAt,
      List.append_assoc, List.singleton_append]
  · rw [ends, place]
    change _ ≤ byteSize (_ ++ trimEnd placement.piece.gap)
    rw [byteSize_append _ (trimEnd placement.piece.gap)]
    omega

end Layout

end TagWrap
