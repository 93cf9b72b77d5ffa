import TagWrap.Proofs.NestedTags

/-!
# The order of findings

Positions of one source are read in the order of their offsets, first by the line and then by the
column. The violations of one tag follow each other in that order. Those of a file are the
violations of its tags, tag by tag in the order in which the dump lists the tags, and nothing sorts
them. So whether the findings are in source order depends on the listing.

`findings_in_source_order_iff` says exactly when they are. A tag that stands between two moved
attributes of the tag around it has findings that no listing puts in their place
(`findings_out_of_source_order`).
-/
namespace TagWrap

open Text

/-- One finding stands before another in the source, by the line and then by the column that are
    told. -/
def Finding.Before (first second : Finding) : Prop :=
  first.line < second.line ∨ first.line = second.line ∧ first.column < second.column

instance : DecidableRel Finding.Before := fun _ _ => inferInstanceAs (Decidable (_ ∨ _ ∧ _))

/-- Findings stand as the attributes that they are about. -/
theorem Finding.before_ofViolation_iff {first second : Violation} :
    (ofViolation first).Before (.ofViolation second) ↔
      first.location.start.ReadBefore second.location.start := by
  simp only [Before, ofViolation, Position.ReadBefore]
  omega

/-- The edit of a violation stops where its attribute starts. -/
theorem Placement.stop_of_mem_violationsAt {lineEnding : LineEnding} {front : Text}
    {placements : List Placement} {violation : Violation}
    (found : violation ∈ violationsAt lineEnding front placements) :
    violation.edit.stop = violation.location.start.offset := by
  obtain ⟨before, placement, after, indent, -, -, rfl⟩ := mem_violationsAt found
  rfl

/-- The violations of pieces in a row are in the order of their attributes. An attribute stands
    between any two of them, and it is not empty. -/
theorem Placement.violationsAt_in_order (lineEnding : LineEnding) (front : Text)
    (placements : List Placement) :
    (violationsAt lineEnding front placements).Pairwise fun first second =>
      first.location.start.offset < second.location.start.offset := by
  induction placements generalizing front with
  | nil => exact .nil
  | cons placement others inductionHypothesis =>
      have filled := placement.piece.byteSize_body_pos
      rw [violationsAt]
      apply List.pairwise_append.mpr
      refine ⟨?_, inductionHypothesis _, ?_⟩
      · unfold violations
        cases placement.indent? <;> simp
      · intro own ownFound other otherFound
        have here : own.location.start.offset = byteSize (front ++ placement.piece.gap) := by
          unfold violations at ownFound
          cases moves : placement.indent? with
          | none => simp [moves] at ownFound
          | some indent =>
              rw [moves, List.mem_singleton] at ownFound
              rw [ownFound]
              rfl
        have bounds := violationsAt_bounds (List.mem_map_of_mem otherFound)
        have there := stop_of_mem_violationsAt otherFound
        rw [byteSize_append (front ++ placement.piece.gap)] at bounds
        omega

namespace Layout

variable {config : RuleConfig} {layout first second : Layout} {violation other : Violation}

/-- The violations of a tag are in the order of its attributes. -/
theorem check_in_order (config : RuleConfig) (layout : Layout) :
    (Rule.check config layout.element).Pairwise fun first second =>
      first.location.start.offset < second.location.start.offset := by
  rw [check_element]
  exact Placement.violationsAt_in_order _ _ _

/-- The attribute of a violation starts inside the tag. -/
theorem start_inside (found : violation ∈ Rule.check config layout.element) :
    layout.ranges.tag.start < violation.location.start.offset ∧
      violation.location.start.offset < layout.ranges.tag.stop := by
  have inside := edit_inside (List.mem_map_of_mem found : violation.edit ∈ layout.edits config)
  rw [check_element] at found
  have stops := Placement.stop_of_mem_violationsAt found
  omega

/-- The place of a violation is a cut of the source. -/
theorem exists_start (found : violation ∈ Rule.check config layout.element) :
    ∃ front back, layout.source = front ++ back ∧ violation.location.start = .behind front := by
  obtain ⟨before, placement, after, indent, placed, -, -, rfl⟩ := exists_move found
  refine ⟨layout.front ++ Piece.flat (Placement.pieces before) ++ placement.piece.gap,
    placement.piece.body ++ (Piece.flat (Placement.pieces after) ++ layout.tail ++ layout.back),
    ?_, rfl⟩
  rw [source_placed placed, List.append_assoc _ placement.piece.body]

/-- Violations of one source are told in the order of the offsets of their attributes. -/
theorem before_ofViolation_iff (same : first.source = second.source)
    (found : violation ∈ Rule.check config first.element)
    (otherFound : other ∈ Rule.check config second.element) :
    (Finding.ofViolation violation).Before (.ofViolation other) ↔
      violation.location.start.offset < other.location.start.offset := by
  obtain ⟨front, back, drawn, starts⟩ := exists_start found
  obtain ⟨front', back', drawn', starts'⟩ := exists_start otherFound
  have whole : front ++ back = front' ++ back' := by rw [← drawn, ← drawn', same]
  rw [Finding.before_ofViolation_iff, starts, starts', Position.readBefore_behind_iff whole]
  rfl

/-- Findings in a list of tags follow a relation when those of each tag do and those of any two tags
    do. -/
theorem pairwise_findings_iff {relation : Finding → Finding → Prop} {layouts : List Layout} :
    ((Rule.checkAll config (layouts.map element)).map Finding.ofViolation).Pairwise relation ↔
      (∀ layout ∈ layouts, (Rule.check config layout.element).Pairwise fun first second =>
        relation (.ofViolation first) (.ofViolation second)) ∧
      layouts.Pairwise fun first second =>
        ∀ violation ∈ Rule.check config first.element,
          ∀ other ∈ Rule.check config second.element,
            relation (.ofViolation violation) (.ofViolation other) := by
  rw [Rule.checkAll, List.flatMap_map, List.pairwise_map, List.pairwise_flatMap]

/-- The findings in tags of one source are never followed by one that stands before them exactly
    when the tags are listed in the order of their violations. -/
theorem sorted_findings_iff {source : Text} {layouts : List Layout}
    (drawn : ∀ layout ∈ layouts, layout.source = source) :
    ((Rule.checkAll config (layouts.map element)).map Finding.ofViolation).Pairwise
        (fun first second => ¬ second.Before first) ↔
      layouts.Pairwise fun first second =>
        ∀ violation ∈ Rule.check config first.element,
          ∀ other ∈ Rule.check config second.element,
            violation.location.start.offset ≤ other.location.start.offset := by
  have listed : ∀ first ∈ layouts, ∀ second ∈ layouts,
      ∀ violation ∈ Rule.check config first.element,
        ∀ other ∈ Rule.check config second.element,
          (¬ (Finding.ofViolation other).Before (.ofViolation violation) ↔
            violation.location.start.offset ≤ other.location.start.offset) := by
    intro first member second member' violation found other otherFound
    have same := (drawn second member').trans (drawn first member).symm
    rw [before_ofViolation_iff same otherFound found, Nat.not_lt]
  rw [pairwise_findings_iff]
  constructor
  · rintro ⟨-, pairs⟩
    refine pairs.imp_of_mem ?_
    intro first second member member' sorted violation found other otherFound
    exact (listed first member second member' violation found other otherFound).mp
      (sorted violation found other otherFound)
  · intro pairs
    refine ⟨?_, pairs.imp_of_mem ?_⟩
    · intro layout member
      refine (check_in_order config layout).imp_of_mem ?_
      intro violation other found otherFound ahead
      exact (listed layout member layout member violation found other otherFound).mpr
        (Nat.le_of_lt ahead)
    · intro first second member member' sorted violation found other otherFound
      exact (listed first member second member' violation found other otherFound).mpr
        (sorted violation found other otherFound)

/-- The findings in tags that are listed from the start of the source to its end, none inside
    another, are in strictly increasing order. -/
theorem findings_of_ahead {source : Text} {layouts : List Layout}
    (drawn : ∀ layout ∈ layouts, layout.source = source)
    (ahead : layouts.Pairwise fun first second =>
      first.ranges.tag.stop ≤ second.ranges.tag.start) :
    ((Rule.checkAll config (layouts.map element)).map Finding.ofViolation).Pairwise
      Finding.Before := by
  rw [pairwise_findings_iff]
  refine ⟨?_, ahead.imp_of_mem ?_⟩
  · intro layout _
    refine (check_in_order config layout).imp_of_mem ?_
    intro violation other found otherFound
    exact (before_ofViolation_iff rfl found otherFound).mpr
  · intro first second member member' apart violation found other otherFound
    have same := (drawn first member).trans (drawn second member').symm
    have below := (start_inside found).2
    have above := (start_inside otherFound).1
    exact (before_ofViolation_iff same found otherFound).mpr (by omega)

end Layout

namespace Inspection

/-- The findings of an inspection are its violations, in the order of the elements. -/
theorem findings_ofElements {config : RuleConfig} {lineEnding : Option LineEnding}
    {sourcePath : Path} {source : Text} {elements : List Element} {inspection : Inspection}
    (inspected : ofElements config lineEnding sourcePath source elements = .ok inspection) :
    inspection.findings = (Rule.checkAll
      { config with lineEnding := lineEnding.getD (.detect source) } elements).map
        Finding.ofViolation := by
  simp only [ofElements] at inspected
  split at inspected
  · rename_i none
    obtain rfl := Except.ok.inj inspected
    rw [none, List.map_nil]
  · simp only [bind_eq_ok] at inspected
    obtain ⟨fixed, -, same⟩ := inspected
    obtain rfl := Except.ok.inj same
    rfl

/-- A dump is inspected by loading it, building its elements and checking them. -/
theorem ofDump_eq_ok_iff {tree : FileTree} {working : Location} {config : RuleConfig}
    {lineEnding : Option LineEnding} {path : Path} {inspection : Inspection} :
    ofDump tree working config lineEnding path = .ok inspection ↔
      ∃ loaded elements, Dump.load tree working path = .ok loaded ∧
        loaded.elements = .ok elements ∧
        ofElements config lineEnding loaded.sourcePath loaded.source elements =
          .ok inspection := by
  simp only [ofDump, bind_eq_ok, mapError_eq_ok]
  constructor
  · rintro ⟨loaded, read, elements, built, checked⟩
    exact ⟨loaded, elements, read, built, checked⟩
  · rintro ⟨loaded, elements, read, built, checked⟩
    exact ⟨loaded, read, elements, built, checked⟩

end Inspection

/-- The findings of a dump are in source order, by the line and then by the column, exactly when no
    violation of an element starts before one of an element that is listed earlier.

    Where the dump lists tags from the start of the source to its end, none of them inside another,
    the findings are in strictly increasing order. -/
theorem findings_in_source_order_iff {tree : FileTree} {working : Location} {config : RuleConfig}
    {lineEnding : Option LineEnding} {path : Path} {inspection : Inspection}
    (inspected : Inspection.ofDump tree working config lineEnding path = .ok inspection) :
    ∃ loaded elements, Dump.load tree working path = .ok loaded ∧
      loaded.elements = .ok elements ∧
      (let settled := { config with lineEnding := lineEnding.getD (.detect loaded.source) }
      inspection.findings.Pairwise (fun first second => ¬ second.Before first) ↔
        elements.Pairwise fun first second =>
          ∀ violation ∈ Rule.check settled first, ∀ other ∈ Rule.check settled second,
            violation.location.start.offset ≤ other.location.start.offset) ∧
      ((loaded.tags.Pairwise fun first second => first.tag.stop ≤ second.tag.start) →
        inspection.findings.Pairwise Finding.Before) := by
  obtain ⟨loaded, elements, read, built, checked⟩ := Inspection.ofDump_eq_ok_iff.mp inspected
  obtain ⟨layouts, drawn, tags, rfl⟩ :=
    Layout.exists_layouts (Dump.Loaded.accepted_of_elements built)
  refine ⟨loaded, layouts.map Layout.element, read, built, ?_, ?_⟩
  · intro settled
    rw [Inspection.findings_ofElements checked, Layout.sorted_findings_iff drawn,
      List.pairwise_map]
  · intro ahead
    rw [tags, List.pairwise_map] at ahead
    rw [Inspection.findings_ofElements checked]
    exact Layout.findings_of_ahead drawn ahead

/-- A dump can be inspected when its tags are accepted and compatible and no two of their edits
    meet. -/
theorem Inspection.exists_ofDump {tree : FileTree} {working : Location} {config : RuleConfig}
    {lineEnding : Option LineEnding} {path : Path} {loaded : Dump.Loaded} {elements : List Element}
    (read : Dump.load tree working path = .ok loaded)
    (resolved : loaded.elementsFrom (.ofText loaded.source) 0 loaded.tags = .ok elements)
    (compatible : (loaded.tags.map (·.tag)).Pairwise Nesting.Compatible)
    (apart : ((Rule.checkAll
      { config with lineEnding := lineEnding.getD (.detect loaded.source) } elements).map
        Violation.edit).Pairwise Edit.Apart) :
    ∃ inspection, ofDump tree working config lineEnding path = .ok inspection ∧
      inspection.findings = (Rule.checkAll
        { config with lineEnding := lineEnding.getD (.detect loaded.source) } elements).map
          Finding.ofViolation := by
  have accepted := Dump.Loaded.elementsFrom_eq_ok_iff.mp resolved
  have built : loaded.elements = .ok elements :=
    Dump.Loaded.elements_eq_ok_iff.mpr ⟨accepted, compatible⟩
  obtain ⟨layouts, drawn, -, rfl⟩ := Layout.exists_layouts accepted
  rw [Layout.edits_checkAll] at apart
  obtain ⟨fixed, made⟩ := Edit.applyAll_isOk_iff.mpr ⟨Layout.allEdits_fit drawn, apart⟩
  rcases ofElements_cases config lineEnding loaded.sourcePath loaded.source
    (layouts.map Layout.element) with ⟨_, inspection, _, succeeded⟩ | ⟨error, failed, _⟩
  · exact ⟨inspection, ofDump_eq_ok_iff.mpr ⟨loaded, _, read, built, succeeded⟩,
      findings_ofElements succeeded⟩
  · rw [Layout.edits_checkAll] at failed
    cases made.symm.trans failed

/-- A source file and a dump of it. -/
def dumped (source tags : String) : FileTree :=
  .ofEntries [] [(["App.jsx".toList], .text source.toList),
    (["a.props.json".toList], .text ("[\"App.jsx\"," ++ tags ++ "]").toList)]

/-- Two tags on two lines, listed from the first line to the second. -/
theorem findings_in_source_order_two_lines :
    ∃ inspection, Inspection.ofDump
        (dumped "<A b c/>\n<D e f/>\n" "[[0,8,[[3,4],[5,6]]],[9,17,[[12,13],[14,15]]]]") []
        .default none (.ofString "a.props.json") = .ok inspection ∧
      inspection.findings.Pairwise Finding.Before := by
  let loaded : Dump.Loaded := ⟨.ofString "App.jsx", "<A b c/>\n<D e f/>\n".toList,
    [⟨⟨0, 8⟩, [⟨3, 4⟩, ⟨5, 6⟩]⟩, ⟨⟨9, 17⟩, [⟨12, 13⟩, ⟨14, 15⟩]⟩]⟩
  let elements := (loaded.elementsFrom (.ofText loaded.source) 0 loaded.tags).toOption.getD []
  have read : Dump.load (dumped "<A b c/>\n<D e f/>\n"
      "[[0,8,[[3,4],[5,6]]],[9,17,[[12,13],[14,15]]]]") [] (.ofString "a.props.json") =
        .ok loaded := by decide +kernel
  have resolved : loaded.elementsFrom (.ofText loaded.source) 0 loaded.tags = .ok elements := by
    decide +kernel
  have compatible : (loaded.tags.map (·.tag)).Pairwise Nesting.Compatible :=
    List.pairwise_pair.mpr (Or.inl (Or.inl (by decide)))
  obtain ⟨inspection, inspected, -⟩ := @Inspection.exists_ofDump _ _ .default none _ _ _ read
    resolved compatible (by decide +kernel)
  obtain ⟨loaded', elements', read', -, -, ahead⟩ := findings_in_source_order_iff inspected
  obtain rfl := Except.ok.inj (read.symm.trans read')
  exact ⟨inspection, inspected, ahead (List.pairwise_pair.mpr (by decide))⟩

/-- A tag inside an attribute of another one, behind an attribute that moves and before another. -/
def tagInValue : String := "<A b c=\x7b<C d e/>\x7d f>"

/-- Whichever of the two tags is listed first, one of its neighbours comes too early or too late. -/
theorem findings_out_of_source_order :
    (∃ inspection, Inspection.ofDump
        (dumped tagInValue "[[0,20,[[3,4],[5,17],[18,19]]],[8,16,[[11,12],[13,14]]]]") []
        .default none (.ofString "a.props.json") = .ok inspection ∧
      ¬ inspection.findings.Pairwise fun first second => ¬ second.Before first) ∧
    (∃ inspection, Inspection.ofDump
        (dumped tagInValue "[[8,16,[[11,12],[13,14]]],[0,20,[[3,4],[5,17],[18,19]]]]") []
        .default none (.ofString "a.props.json") = .ok inspection ∧
      ¬ inspection.findings.Pairwise fun first second => ¬ second.Before first) := by
  let outer : TagRanges := ⟨⟨0, 20⟩, [⟨3, 4⟩, ⟨5, 17⟩, ⟨18, 19⟩]⟩
  let inner : TagRanges := ⟨⟨8, 16⟩, [⟨11, 12⟩, ⟨13, 14⟩]⟩
  have encloses : Nesting.Encloses outer.tag inner.tag := ⟨by decide, by decide, by decide⟩
  constructor
  · let loaded : Dump.Loaded := ⟨.ofString "App.jsx", tagInValue.toList, [outer, inner]⟩
    let elements := (loaded.elementsFrom (.ofText loaded.source) 0 loaded.tags).toOption.getD []
    obtain ⟨inspection, inspected, findings⟩ := @Inspection.exists_ofDump (dumped tagInValue
      "[[0,20,[[3,4],[5,17],[18,19]]],[8,16,[[11,12],[13,14]]]]") [] .default none
      (.ofString "a.props.json") loaded elements (by decide +kernel) (by decide +kernel)
      (List.pairwise_pair.mpr (Or.inr (Or.inl encloses))) (by decide +kernel)
    refine ⟨inspection, inspected, ?_⟩
    rw [findings]
    decide +kernel
  · let loaded : Dump.Loaded := ⟨.ofString "App.jsx", tagInValue.toList, [inner, outer]⟩
    let elements := (loaded.elementsFrom (.ofText loaded.source) 0 loaded.tags).toOption.getD []
    obtain ⟨inspection, inspected, findings⟩ := @Inspection.exists_ofDump (dumped tagInValue
      "[[8,16,[[11,12],[13,14]]],[0,20,[[3,4],[5,17],[18,19]]]]") [] .default none
      (.ofString "a.props.json") loaded elements (by decide +kernel) (by decide +kernel)
      (List.pairwise_pair.mpr (Or.inr (Or.inr encloses))) (by decide +kernel)
    refine ⟨inspection, inspected, ?_⟩
    rw [findings]
    decide +kernel

end TagWrap
