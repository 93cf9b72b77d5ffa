import TagWrap.Proofs.Arrangement

/-!
# Where tags lie after a fix

An offset of the source is carried to the fixed source by the growth of all edits that stop at or
before it. A tag whose neighbours stand beside it is found again at the carried offsets, with its
pieces settled (`Layout.exists_settled`): the edits fall into those below the tag, its own and
those above it, the splice comes apart at both ends of the tag, and between them only the edits
of the tag are made.
-/
namespace TagWrap

open Text

namespace Edit

/-- The number of bytes by which edits move what stands at an offset. -/
def shift (edits : List Edit) (offset : Nat) : Int :=
  totalGrowth (edits.filter fun edit => edit.stop ≤ offset)

/-- Where an offset of a source lies after edits. -/
def carry (edits : List Edit) (offset : Nat) : Nat := (offset + shift edits offset).toNat

theorem shift_append (first second : List Edit) (offset : Nat) :
    shift (first ++ second) offset = shift first offset + shift second offset := by
  simp [shift]

/-- Edits that stop at or before an offset move it by all that they add. -/
theorem shift_of_below {edits : List Edit} {offset : Nat}
    (below : ∀ edit ∈ edits, edit.stop ≤ offset) : shift edits offset = totalGrowth edits := by
  rw [shift, List.filter_eq_self.mpr (by simpa using below)]

/-- Edits that stop behind an offset do not move it. -/
theorem shift_of_above {edits : List Edit} {offset : Nat}
    (above : ∀ edit ∈ edits, offset < edit.stop) : shift edits offset = 0 := by
  rw [shift, List.filter_eq_nil_iff.mpr (by simpa using above)]
  rfl

/-- The order of edits does not matter for where they carry an offset. -/
theorem carry_perm {first second : List Edit} (same : first.Perm second) (offset : Nat) :
    carry first offset = carry second offset := by
  rw [carry, carry, shift, shift, totalGrowth_perm (same.filter _)]

/-- Edits carry the end of a piece of text no further to the left than its start, unless one of
    them reaches across the start. The edits behind the start and up to the end take away no more
    than the piece. -/
theorem carry_le_carry {edits : List Edit} {low high : Nat}
    (ordered : edits.Pairwise fun first second => first.stop ≤ second.start)
    (forward : ∀ edit ∈ edits, edit.start ≤ edit.stop)
    (clear : ∀ edit ∈ edits, edit.stop ≤ low ∨ low ≤ edit.start) (below : low ≤ high) :
    carry edits low ≤ carry edits high := by
  have parted : shift edits high = shift edits low +
      totalGrowth (edits.filter fun edit => low < edit.stop ∧ edit.stop ≤ high) := by
    clear ordered forward clear
    induction edits with
    | nil => rfl
    | cons edit edits inductionHypothesis =>
        simp only [shift] at inductionHypothesis ⊢
        by_cases early : edit.stop ≤ low
        · have reached : edit.stop ≤ high := by omega
          have behind : ¬ low < edit.stop := by omega
          simp [early, reached, behind, inductionHypothesis, totalGrowth, Int.add_assoc]
        · have behind : low < edit.stop := by omega
          by_cases reached : edit.stop ≤ high
          · simp only [early, reached, behind, inductionHypothesis, decide_false, decide_true,
              Bool.false_eq_true, not_false_eq_true, and_self, List.filter_cons_of_neg,
              List.filter_cons_of_pos, totalGrowth]
            omega
          · simp [early, reached, inductionHypothesis]
  have taken : (low : Int) - high ≤
      totalGrowth (edits.filter fun edit => low < edit.stop ∧ edit.stop ≤ high) := by
    refine totalGrowth_ge (ordered.filter _) (fun edit member => ?_) below
    obtain ⟨listed, between⟩ := List.mem_filter.mp member
    rw [decide_eq_true_iff] at between
    rcases clear edit listed with early | late
    · omega
    · exact ⟨late, forward edit listed, between.2⟩
  rw [carry, carry, parted]
  omega

/-- The edits that stop before a tag. -/
def below (tag : ByteRange) (edits : List Edit) : List Edit :=
  edits.filter fun edit => edit.stop < tag.start

/-- The edits that start behind a tag. -/
def above (tag : ByteRange) (edits : List Edit) : List Edit :=
  edits.filter fun edit => tag.stop < edit.start

theorem mem_below {tag : ByteRange} {edits : List Edit} {edit : Edit} :
    edit ∈ below tag edits ↔ edit ∈ edits ∧ edit.stop < tag.start := by
  simp [below]

theorem mem_above {tag : ByteRange} {edits : List Edit} {edit : Edit} :
    edit ∈ above tag edits ↔ edit ∈ edits ∧ tag.stop < edit.start := by
  simp [above]

section Around

variable {edits own others : List Edit} {tag : ByteRange}

/-- Edits of a tag and edits that do not touch it fall into those below the tag, its own and those
    above it. -/
theorem perm_around (same : edits.Perm (own ++ others)) (runs : tag.start ≤ tag.stop)
    (inside : ∀ edit ∈ own, tag.start < edit.start ∧ edit.start ≤ edit.stop ∧ edit.stop < tag.stop)
    (outside : ∀ edit ∈ others, edit.start ≤ edit.stop ∧
      (edit.stop < tag.start ∨ tag.stop < edit.start)) :
    (below tag edits ++ (own ++ above tag edits)).Perm edits := by
  have none_below : below tag own = [] := by
    refine List.filter_eq_nil_iff.mpr fun edit member => ?_
    have within := inside edit member
    rw [decide_eq_true_eq]
    omega
  have none_above : above tag own = [] := by
    refine List.filter_eq_nil_iff.mpr fun edit member => ?_
    have within := inside edit member
    rw [decide_eq_true_eq]
    omega
  -- Of the edits that do not touch the tag, those above it are the ones that are not below it.
  have other_above : above tag others =
      others.filter fun edit => !decide (edit.stop < tag.start) := by
    refine List.filter_congr fun edit member => ?_
    have placed := outside edit member
    rw [Bool.eq_iff_iff]
    simp only [Bool.not_eq_true', decide_eq_true_eq, decide_eq_false_iff_not]
    omega
  have lows : (below tag edits).Perm (below tag others) := by
    have filtered := same.filter fun edit => decide (edit.stop < tag.start)
    rw [List.filter_append] at filtered
    rwa [← below, ← below, ← below, none_below, List.nil_append] at filtered
  have highs : (above tag edits).Perm (above tag others) := by
    have filtered := same.filter fun edit => decide (tag.stop < edit.start)
    rw [List.filter_append] at filtered
    rwa [← above, ← above, ← above, none_above, List.nil_append] at filtered
  have gathered : (below tag others ++ (own ++ above tag others)).Perm (own ++ others) := by
    rw [other_above]
    refine (List.perm_append_comm_assoc _ _ _).trans ?_
    exact (List.filter_append_perm _ others).append_left own
  exact (lows.append (highs.append_left own)).trans (gathered.trans same.symm)

/-- The edits below a tag, its own and those above it are in increasing order in a row. -/
theorem increasing_around (increasing : edits.Pairwise Precedes)
    (ownIncreasing : own.Pairwise Precedes) (forward : ∀ edit ∈ edits, edit.start ≤ edit.stop)
    (inside : ∀ edit ∈ own, tag.start < edit.start ∧ edit.start ≤ edit.stop ∧
      edit.stop < tag.stop) (runs : tag.start ≤ tag.stop) :
    (below tag edits ++ (own ++ above tag edits)).Pairwise Precedes := by
  refine List.pairwise_append.mpr ⟨increasing.filter _, List.pairwise_append.mpr
    ⟨ownIncreasing, increasing.filter _, ?_⟩, ?_⟩
  · intro edit mine other high
    have within := inside edit mine
    have beyond := (mem_above.mp high).2
    exact ⟨by omega, by omega⟩
  · intro edit low other rest
    obtain ⟨listed, before⟩ := mem_below.mp low
    have runsForward := forward edit listed
    rcases List.mem_append.mp rest with mine | high
    · have within := inside other mine
      exact ⟨by omega, by omega⟩
    · have beyond := (mem_above.mp high).2
      exact ⟨by omega, by omega⟩

/-- Edits in increasing order fall into those below a tag, its own and those above it. The three
    parts in a row are in increasing order too, and there is only one such order. -/
theorem exists_around (same : edits.Perm (own ++ others)) (increasing : edits.Pairwise Precedes)
    (ownIncreasing : own.Pairwise Precedes) (runs : tag.start ≤ tag.stop)
    (inside : ∀ edit ∈ own, tag.start < edit.start ∧ edit.start ≤ edit.stop ∧ edit.stop < tag.stop)
    (outside : ∀ edit ∈ others, edit.start ≤ edit.stop ∧
      (edit.stop < tag.start ∨ tag.stop < edit.start)) :
    ∃ low high, edits = low ++ (own ++ high) ∧ (∀ edit ∈ low, edit.stop < tag.start) ∧
      ∀ edit ∈ high, tag.stop < edit.start ∧ edit.start ≤ edit.stop := by
  have forward : ∀ edit ∈ edits, edit.start ≤ edit.stop := by
    intro edit member
    rcases List.mem_append.mp (same.mem_iff.mp member) with mine | foreign
    · exact (inside edit mine).2.1
    · exact (outside edit foreign).1
  refine ⟨below tag edits, above tag edits, ?_, ?_, ?_⟩
  · exact (increasing_unique (perm_around same runs inside outside)
      (increasing_around increasing ownIncreasing forward inside runs) increasing).symm
  · intro edit low
    exact (mem_below.mp low).2
  · intro edit high
    obtain ⟨listed, beyond⟩ := mem_above.mp high
    exact ⟨beyond, forward edit listed⟩

end Around

end Edit

/-- The range of an attribute at the place to which edits carry its start. The attribute keeps its
    length. -/
def ByteRange.carry (edits : List Edit) (range : ByteRange) : ByteRange :=
  ⟨Edit.carry edits range.start, Edit.carry edits range.start + (range.stop - range.start)⟩

/-- The ranges of a tag at the places to which edits carry them. -/
def TagRanges.carry (edits : List Edit) (ranges : TagRanges) : TagRanges where
  tag := ⟨Edit.carry edits ranges.tag.start, Edit.carry edits ranges.tag.stop⟩
  attributes := ranges.attributes.map (ByteRange.carry edits)

theorem TagRanges.carry_perm {first second : List Edit} (same : first.Perm second)
    (ranges : TagRanges) : ranges.carry first = ranges.carry second := by
  have carried : ByteRange.carry first = ByteRange.carry second := by
    funext range
    simp only [ByteRange.carry, Edit.carry_perm same]
  simp only [carry, carried, Edit.carry_perm same]

namespace Placement

variable {lineEnding : LineEnding} {front : Text} {placement : Placement} {low high : List Edit}

/-- The gap of a settled piece has grown by what the edits of the piece add. -/
theorem growth_violations (lineEnding : LineEnding) (front : Text) (placement : Placement) :
    (byteSize (placement.settled lineEnding).gap : Int) = byteSize placement.piece.gap +
      Edit.totalGrowth ((placement.violations lineEnding front).map Violation.edit) := by
  have result := (spliced_violations lineEnding front placement).byteSize_result
  simp only [Piece.text, byteSize_append, settled_body] at result
  omega

/-- The edits below a piece and those of the piece stop where its attribute starts or before. -/
theorem stop_le_attribute (below : ∀ edit ∈ low, edit.stop ≤ byteSize front) :
    ∀ edit ∈ low ++ (placement.violations lineEnding front).map Violation.edit,
      edit.stop ≤ byteSize front + byteSize placement.piece.gap := by
  intro edit member
  rcases List.mem_append.mp member with earlier | mine
  · exact Nat.le_trans (below edit earlier) (Nat.le_add_right _ _)
  · exact Nat.le_of_eq ((stop_of_mem_violations mine).2.trans (byteSize_append _ _))

/-- An attribute is carried behind its settled gap, by the edits below its piece and those of the
    piece. All others stop behind the start of the attribute. -/
theorem carry_attribute {start : Nat} (below : ∀ edit ∈ low, edit.stop ≤ byteSize front)
    (above : ∀ edit ∈ high, byteSize front + byteSize placement.piece.gap < edit.stop)
    (moved : (start : Int) = byteSize front + Edit.totalGrowth low) :
    Edit.carry (low ++ (placement.violations lineEnding front).map Violation.edit ++ high)
      (byteSize front + byteSize placement.piece.gap) =
        start + byteSize (placement.settled lineEnding).gap := by
  have grown := growth_violations lineEnding front placement
  rw [Edit.carry, Edit.shift_append, Edit.shift_of_below (stop_le_attribute below),
    Edit.shift_of_above above, Edit.totalGrowth_append]
  omega

/-- The attributes of settled pieces stand where the edits of the pieces carry them, together with
    edits below the pieces and above them.

    The induction is on the pieces. The edit of the first one stops where its attribute starts and
    all later ones stop behind that, so what stands in front of the attribute has grown by the
    edits below the pieces and by its own. -/
theorem ranges_settledPieces {placements : List Placement} {start : Nat}
    (below : ∀ edit ∈ low, edit.stop ≤ byteSize front)
    (above : ∀ edit ∈ high, byteSize (front ++ Piece.flat (pieces placements)) < edit.stop)
    (moved : (start : Int) = byteSize front + Edit.totalGrowth low) :
    Piece.ranges start (settledPieces lineEnding placements) =
      (Piece.ranges (byteSize front) (pieces placements)).map (ByteRange.carry
        (low ++ ((violationsAt lineEnding front placements).map Violation.edit ++ high))) := by
  induction placements generalizing front low start with
  | nil => rfl
  | cons placement others inductionHypothesis =>
      let own := (placement.violations lineEnding front).map Violation.edit
      let later := (violationsAt lineEnding
        (front ++ placement.piece.gap ++ placement.piece.body) others).map Violation.edit
      have split : low ++ ((violationsAt lineEnding front (placement :: others)).map
          Violation.edit ++ high) = low ++ own ++ (later ++ high) := by
        simp [violationsAt, own, later]
      have filled := placement.piece.byteSize_body_pos
      have restAbove : ∀ edit ∈ later ++ high,
          byteSize front + byteSize placement.piece.gap < edit.stop := by
        intro edit member
        rcases List.mem_append.mp member with next | beyond
        · have bounded := violationsAt_bounds next
          simp only [byteSize_append] at bounded
          omega
        · have bounded := above edit beyond
          simp only [pieces_cons, Piece.flat_cons, byteSize_append] at bounded
          omega
      have stop : byteSize front + byteSize placement.piece.gap + byteSize placement.piece.body =
          byteSize (front ++ placement.piece.gap ++ placement.piece.body) := by
        simp only [byteSize_append]
      have head : ByteRange.carry (low ++ own ++ (later ++ high))
          ⟨byteSize front + byteSize placement.piece.gap, byteSize front +
            byteSize placement.piece.gap + byteSize placement.piece.body⟩ =
          ⟨start + byteSize (placement.settled lineEnding).gap, start +
            byteSize (placement.settled lineEnding).gap + byteSize placement.piece.body⟩ := by
        rw [ByteRange.carry, carry_attribute below restAbove moved, Nat.add_sub_cancel_left]
      have rest := @inductionHypothesis (front ++ placement.piece.gap ++ placement.piece.body)
        (low ++ own) (start + byteSize (placement.settled lineEnding).gap +
          byteSize placement.piece.body)
        (fun edit member => by
          rw [← stop]
          exact Nat.le_trans (stop_le_attribute below edit member) (Nat.le_add_right _ _))
        (fun edit member => by
          have bounded := above edit member
          simpa [Nat.add_assoc] using bounded)
        (by
          have grown : _ = _ + Edit.totalGrowth own := growth_violations lineEnding front placement
          rw [← stop, Edit.totalGrowth_append]
          push_cast
          omega)
      rw [settledPieces_cons, pieces_cons, split]
      simp only [Piece.ranges, settled_body, List.map_cons]
      rw [head, stop]
      exact congrArg (List.cons _) rest

end Placement

namespace Layout

/-- The tag with its pieces settled, between two texts. -/
def settle (config : RuleConfig) (front back : Text) (layout : Layout) : Layout where
  front := front
  pieces := Placement.settledPieces config.lineEnding (layout.placements config)
  tail := layout.tail
  back := back
  opened := by
    unfold placements
    cases drawn : layout.pieces with
    | nil => simp
    | cons first others =>
        rintro _ ⟨⟩
        exact layout.opened first (by simp [drawn])

/-- The edits of a tag make of it the tag with its pieces settled. -/
theorem spliced_inner (config : RuleConfig) (front back : Text) (layout : Layout) :
    Edit.Spliced (byteSize layout.front) layout.inner (layout.edits config)
      (layout.settle config front back).inner := by
  have spliced := (layout.spliced_edits config).append (.rest _ layout.tail)
  rwa [List.append_nil] at spliced

/-- A splice by the edits of a tag and by edits that do not touch it settles the tag between what
    the others make of the text in front of the tag and of the text behind it. -/
theorem exists_around {fixed : Text} {layout : Layout} {config : RuleConfig} {low high : List Edit}
    (spliced : Edit.Spliced 0 layout.source (low ++ (layout.edits config ++ high)) fixed)
    (below : ∀ edit ∈ low, edit.stop < layout.ranges.tag.start)
    (above : ∀ edit ∈ high, layout.ranges.tag.stop < edit.start) :
    ∃ front back, (layout.settle config front back).source = fixed ∧
      Edit.Spliced 0 layout.front low front := by
  have starts : layout.ranges.tag.start = byteSize layout.front := rfl
  have stops : layout.ranges.tag.stop = byteSize layout.front + byteSize layout.inner :=
    byteSize_append _ _
  have ownBounds := (layout.spliced_inner config [] []).bounds
  have whole : layout.source = layout.front ++ (layout.inner ++ layout.back) := List.append_assoc ..
  rw [whole] at spliced
  obtain ⟨front, rest, rfl, lowSpliced, restSpliced⟩ := spliced.split
    (fun edit member => by
      have before := below edit member
      omega)
    (fun edit member => by
      rcases List.mem_append.mp member with own | beyond
      · have within := ownBounds edit own
        omega
      · have after := above edit beyond
        omega)
  obtain ⟨inner, back, rfl, ownSpliced, -⟩ := restSpliced.split
    (fun edit member => by
      have within := ownBounds edit member
      omega)
    (fun edit member => by
      have after := above edit member
      omega)
  rw [Nat.zero_add] at ownSpliced
  refine ⟨front, back, ?_, lowSpliced⟩
  rw [ownSpliced.unique (layout.spliced_inner config front back)]
  exact List.append_assoc ..

/-- The settled tag stands at the places to which the edits carry the tag. -/
theorem ranges_settle {layout : Layout} {config : RuleConfig} {front back : Text}
    {low high : List Edit} (spliced : Edit.Spliced 0 layout.front low front)
    (below : ∀ edit ∈ low, edit.stop < layout.ranges.tag.start)
    (above : ∀ edit ∈ high, layout.ranges.tag.stop < edit.start ∧ edit.start ≤ edit.stop) :
    (layout.settle config front back).ranges =
      layout.ranges.carry (low ++ (layout.edits config ++ high)) := by
  have starts : layout.ranges.tag.start = byteSize layout.front := rfl
  have stops : layout.ranges.tag.stop = byteSize layout.front + byteSize layout.inner :=
    byteSize_append _ _
  have ownInside := fun edit (member : edit ∈ layout.edits config) => edit_inside member
  have lowGrowth := spliced.byteSize_result
  have ownGrowth := (layout.spliced_inner config front back).byteSize_result
  have atStart : Edit.carry (low ++ (layout.edits config ++ high)) layout.ranges.tag.start =
      byteSize front := by
    rw [Edit.carry, Edit.shift_append, Edit.shift_append,
      Edit.shift_of_below fun edit member => Nat.le_of_lt (below edit member),
      Edit.shift_of_above fun edit member => (by have inside := ownInside edit member; omega),
      Edit.shift_of_above fun edit member => (by have beyond := above edit member; omega)]
    omega
  have atStop : Edit.carry (low ++ (layout.edits config ++ high)) layout.ranges.tag.stop =
      byteSize front + byteSize (layout.settle config front back).inner := by
    rw [Edit.carry, Edit.shift_append, Edit.shift_append,
      Edit.shift_of_below fun edit member => (by have before := below edit member; omega),
      Edit.shift_of_below fun edit member => Nat.le_of_lt (ownInside edit member).2.2,
      Edit.shift_of_above fun edit member => (by have beyond := above edit member; omega)]
    omega
  have attributes := @Placement.ranges_settledPieces config.lineEnding layout.front low high
    (layout.placements config) (byteSize front)
    (fun edit member => by have before := below edit member; omega)
    (fun edit member => by
      have beyond := above edit member
      have reached : byteSize layout.inner =
          byteSize (Piece.flat layout.pieces) + byteSize layout.tail := byteSize_append _ _
      rw [pieces_placements, byteSize_append]
      omega)
    (by omega)
  rw [pieces_placements, ← check_element] at attributes
  have tag : (layout.settle config front back).ranges.tag =
      ⟨byteSize front, byteSize front + byteSize (layout.settle config front back).inner⟩ :=
    congrArg (ByteRange.mk _) (byteSize_append _ _)
  rw [TagRanges.carry, atStart, atStop, ← tag]
  exact congrArg (TagRanges.mk _) attributes

/-- A tag whose neighbours stand beside it is found again in the fixed source, at the places to
    which the edits carry it and with its pieces settled. -/
theorem exists_settled {source fixed : Text} {layouts : List Layout} {config : RuleConfig}
    (drawn : ∀ layout ∈ layouts, layout.source = source)
    (beside : (layouts.map ranges).Pairwise TagRanges.Beside)
    (applied : Edit.applyAll source (allEdits config layouts) = .ok fixed) {layout : Layout}
    (listed : layout ∈ layouts) :
    ∃ front back, (layout.settle config front back).source = fixed ∧
      (layout.settle config front back).ranges =
        layout.ranges.carry (allEdits config layouts) := by
  obtain ⟨ordered, same, increasing, spliced⟩ := Edit.applyAll_eq_ok_iff.mp applied
  rw [← drawn layout listed] at spliced
  obtain ⟨before, after, rfl⟩ := List.append_of_mem listed
  have neighbours : ∀ other ∈ before ++ after, other.ranges.Beside layout.ranges := by
    have pairs := List.pairwise_append.mp (List.pairwise_map.mp beside)
    intro other member
    rcases List.mem_append.mp member with earlier | later
    · exact pairs.2.2 other earlier layout List.mem_cons_self
    · exact (List.rel_of_pairwise_cons pairs.2.1 later).symm
  have gathered : ordered.Perm (layout.edits config ++ allEdits config (before ++ after)) := by
    refine same.trans ?_
    rw [allEdits, List.flatMap_append, List.flatMap_cons, allEdits, List.flatMap_append]
    exact List.perm_append_comm_assoc _ _ _
  have outside : ∀ edit ∈ allEdits config (before ++ after), edit.start ≤ edit.stop ∧
      (edit.stop < layout.ranges.tag.start ∨ layout.ranges.tag.stop < edit.start) := by
    intro edit member
    obtain ⟨other, place, own⟩ := List.mem_flatMap.mp member
    have inside := edit_inside own
    rcases neighbours other place with ahead | behind
    · exact ⟨inside.2.1, Or.inl (by omega)⟩
    · exact ⟨inside.2.1, Or.inr (by omega)⟩
  obtain ⟨low, high, rfl, below, above⟩ := Edit.exists_around gathered increasing
    (layout.edits_precede config) layout.tag_runs (fun edit member => edit_inside member) outside
  obtain ⟨front, back, rfl, lowSpliced⟩ :=
    exists_around spliced below fun edit member => (above edit member).1
  refine ⟨front, back, rfl, ?_⟩
  rw [← TagRanges.carry_perm same]
  exact ranges_settle lowSpliced below above

end Layout

end TagWrap
