import TagWrap.Inspection
import TagWrap.Proofs.Arrangement
import TagWrap.Proofs.Sweep

/-!
# Fixing the tags of a dump

The elements of a dump are accepted when their tags stand beside each other or inside each other.
That does not make their edits agree: a tag may lie inside another one and share attributes with
it, and then both tags want to move them (`fix_refused_shared_attributes`).

Two edits of different tags meet only where the attribute that one of them moves starts inside the
other tag. Before that start stand the blanks that the edit covers, and no attribute of the other
tag fits in them, since an attribute has a name and a name is not blank. So the edits of a dump
can be made whenever no attribute of an outer tag, its first one apart, starts inside an inner tag
(`fix_of_orderly_dump`).
-/
namespace TagWrap

open Text

/-- A piece of a text that stands between the ends of another piece is part of it. -/
theorem Text.exists_inside {front inner back upper piece lower : Text}
    (whole : front ++ inner ++ back = upper ++ piece ++ lower)
    (starts : byteSize upper ≤ byteSize front)
    (stops : byteSize (front ++ inner) ≤ byteSize (upper ++ piece)) :
    ∃ before after, piece = before ++ inner ++ after := by
  rw [List.append_assoc, List.append_assoc] at whole
  obtain ⟨before, rfl, rest⟩ := exists_between whole.symm starts
  rw [byteSize_append, byteSize_append, byteSize_append] at stops
  have rest' : (before ++ inner) ++ back = piece ++ lower := by simpa using rest.symm
  obtain ⟨after, rfl, -⟩ := exists_between rest' (by rw [byteSize_append]; omega)
  exact ⟨before, after, rfl⟩

/-- An attribute is not blank, since blanks have no name. -/
theorem Piece.exists_shown (piece : Piece) : ∃ char ∈ piece.body, isBlank char = false := by
  by_contra none_shown
  have blank : ∀ char ∈ piece.body, isBlank char = true := by
    intro char member
    by_contra shown
    exact none_shown ⟨char, member, eq_false_of_ne_true shown⟩
  have unnamed : AttributeName.ofSource? piece.body = none := by
    rw [AttributeName.ofSource?, trim_of_blank blank]
    rfl
  have named := piece.named
  rw [unnamed] at named
  contradiction

namespace TagRanges

/-- No attribute of the outer tag starts inside the inner one, unless it is its first. -/
def Spares (inner outer : TagRanges) : Prop :=
  ∀ range ∈ outer.attributes.tail, range.start ≤ inner.tag.start ∨ inner.tag.stop ≤ range.start

/-- Where one of two tags lies inside the other, it spares the attributes of the other. -/
def Orderly (first second : TagRanges) : Prop :=
  (Nesting.Encloses second.tag first.tag → Spares first second) ∧
    (Nesting.Encloses first.tag second.tag → Spares second first)

end TagRanges

namespace Layout

variable {config : RuleConfig} {layout first second : Layout} {edit : Edit}

/-- An edit stops where an attribute starts that is not the first of its tag. -/
theorem exists_range (member : edit ∈ layout.edits config) :
    ∃ range ∈ layout.ranges.attributes.tail, range.start = edit.stop := by
  obtain ⟨before, piece, after, drawn, behind, -, stops⟩ := exists_gap member
  obtain ⟨head, others, rfl⟩ := List.exists_cons_of_ne_nil behind
  refine ⟨⟨edit.stop, edit.stop + byteSize piece.body⟩, ?_, rfl⟩
  simp only [ranges, drawn, List.cons_append, Piece.ranges, List.tail_cons, Piece.ranges_append,
    List.mem_append, List.mem_cons]
  refine Or.inr (Or.inl ?_)
  rw [stops]
  simp [Nat.add_assoc]

/-- Where an edit stops, an attribute of the tag stands that is not blank. -/
theorem exists_body (member : edit ∈ layout.edits config) :
    ∃ front body back, layout.source = front ++ body ++ back ∧ byteSize front = edit.stop ∧
      byteSize (front ++ body) ≤ layout.ranges.tag.stop ∧
      ∃ char ∈ body, isBlank char = false := by
  obtain ⟨before, piece, after, drawn, -, -, stops⟩ := exists_gap member
  refine ⟨layout.front ++ Piece.flat before ++ piece.gap, piece.body,
    Piece.flat after ++ layout.tail ++ layout.back, ?_, stops.symm, ?_, piece.exists_shown⟩
  · simp [source, inner, drawn]
  · simp only [ranges, inner, drawn, Piece.flat_append, Piece.flat_cons, byteSize_append]
    omega

/-- The edits of a tag do not meet those of a tag whose attributes it spares. An attribute that
    moves starts before the tag or behind it. In the second case the edit starts behind all edits
    of the tag: otherwise one of its attributes would stand among the blanks that the edit takes. -/
theorem apart_of_spares (same : first.source = second.source)
    (spares : first.ranges.Spares second.ranges) :
    ∀ edit ∈ first.edits config, ∀ other ∈ second.edits config, Edit.Apart edit other := by
  intro edit member other otherMember
  have inside := edit_inside member
  have forward := (edit_inside otherMember).2.1
  obtain ⟨range, listed, starts⟩ := exists_range otherMember
  rcases spares range listed with before | after
  · exact Or.inr ⟨by omega, by omega⟩
  · obtain ⟨front, body, back, drawn, begins, within, char, inBody, shown⟩ := exists_body member
    obtain ⟨-, gone, ⟨upper, lower, whole, upperSize, ends⟩, -, blank, -⟩ := exists_taken otherMember
    have ahead : edit.stop < other.start := by
      by_contra reached
      obtain ⟨low, high, rfl⟩ := exists_inside
        (show front ++ body ++ back = upper ++ gone ++ lower by rw [← drawn, ← whole, same])
        (by omega) (by rw [byteSize_append upper]; omega)
      have covered := blank char (by simp [inBody])
      rw [shown] at covered
      contradiction
    exact Or.inl ⟨by omega, by omega⟩

/-- The edits of tags that are compatible and spare each other do not meet. -/
theorem apart_of_orderly (same : first.source = second.source)
    (compatible : Nesting.Compatible first.ranges.tag second.ranges.tag)
    (orderly : first.ranges.Orderly second.ranges) :
    ∀ edit ∈ first.edits config, ∀ other ∈ second.edits config, Edit.Apart edit other := by
  rcases compatible with beside | outer | inner
  · exact apart_of_beside beside
  · intro edit member other otherMember
    exact (apart_of_spares same.symm (orderly.2 outer) other otherMember edit member).symm
  · exact apart_of_spares same (orderly.1 inner)

/-- The tags of layouts pass the check of nesting exactly when they are compatible with each
    other. -/
theorem check_eq_ok_iff {layouts : List Layout} :
    Nesting.check (layouts.map element) = .ok () ↔
      (layouts.map fun layout => layout.ranges.tag).Pairwise Nesting.Compatible := by
  have tags : (layouts.map element).map (·.span.range) = layouts.map fun layout =>
      layout.ranges.tag := by
    rw [List.map_map]
    rfl
  rw [Nesting.check, tags]
  apply Nesting.checkRanges_eq_ok_iff
  intro range member
  obtain ⟨layout, -, rfl⟩ := List.mem_map.mp member
  exact layout.tag_runs

end Layout

/-- A dump can be used exactly when each of its tags is accepted and any two of them are
    compatible. -/
theorem Dump.Loaded.elements_eq_ok_iff {loaded : Loaded} {elements : List Element} :
    loaded.elements = .ok elements ↔
      List.Forall₂ (TagRanges.Accepted loaded.source) loaded.tags elements ∧
        (loaded.tags.map (·.tag)).Pairwise Nesting.Compatible := by
  have opened : loaded.elements = .ok elements ↔
      List.Forall₂ (TagRanges.Accepted loaded.source) loaded.tags elements ∧
        Nesting.check elements = .ok () := by
    simp only [Dump.Loaded.elements, bind_eq_ok, mapError_eq_ok, pure_eq_ok,
      elementsFrom_eq_ok_iff]
    constructor
    · rintro ⟨found, accepted, _, passed, rfl⟩
      exact ⟨accepted, passed⟩
    · rintro ⟨accepted, passed⟩
      exact ⟨elements, accepted, (), passed, rfl⟩
  rw [opened]
  refine and_congr_right fun accepted => ?_
  obtain ⟨layouts, -, tags, rfl⟩ := Layout.exists_layouts accepted
  rw [Layout.check_eq_ok_iff, tags, List.map_map]
  rfl

/-- An inspection succeeds when the edits of its violations can be made, and fails with the error of
    the edits otherwise. -/
theorem Inspection.ofElements_cases (config : RuleConfig) (lineEnding : Option LineEnding)
    (sourcePath : Path) (source : Text) (elements : List Element) :
    let applied := Edit.applyAll source ((Rule.checkAll
      { config with lineEnding := lineEnding.getD (.detect source) } elements).map Violation.edit)
    (∃ fixed inspection, applied = .ok fixed ∧
      ofElements config lineEnding sourcePath source elements = .ok inspection) ∨
    ∃ error, applied = .error error ∧
      ofElements config lineEnding sourcePath source elements =
        .error (.edits sourcePath error) := by
  intro applied
  have opened : applied = Edit.applyAll source ((Rule.checkAll
    { config with lineEnding := lineEnding.getD (.detect source) } elements).map
      Violation.edit) := rfl
  simp only [ofElements]
  split
  · rename_i none
    rw [none] at opened
    exact Or.inl ⟨source, _, opened.trans (Edit.applyAll_of_increasing .nil), rfl⟩
  · rename_i violations _
    rw [← opened]
    cases applied with
    | ok fixed => exact Or.inl ⟨fixed, _, rfl, rfl⟩
    | error error => exact Or.inr ⟨error, rfl, rfl⟩

/-- The edits of a dump that can be used can be made, and its inspection succeeds, whenever a tag
    that lies inside another one spares its attributes.

    In any case they can be made exactly when no two edits of different tags meet. Otherwise the
    inspection fails, and it says that edits overlap. -/
theorem fix_of_orderly_dump {loaded : Dump.Loaded} {elements : List Element}
    (built : loaded.elements = .ok elements) (config : RuleConfig)
    (lineEnding : Option LineEnding) :
    let settled := { config with lineEnding := lineEnding.getD (.detect loaded.source) }
    let applied := Edit.applyAll loaded.source
      ((Rule.checkAll settled elements).map Violation.edit)
    let inspected := Inspection.ofElements config lineEnding loaded.sourcePath loaded.source elements
    (loaded.tags.Pairwise TagRanges.Orderly →
      (∃ fixed, applied = .ok fixed) ∧ ∃ inspection, inspected = .ok inspection) ∧
    ((∃ fixed, applied = .ok fixed) ↔ elements.Pairwise fun first second =>
      ∀ violation ∈ Rule.check settled first, ∀ other ∈ Rule.check settled second,
        Edit.Apart violation.edit other.edit) ∧
    ∀ error, applied = .error error →
      inspected = .error (.edits loaded.sourcePath error) ∧
        ∃ offset, error = .overlappingEdits offset := by
  intro settled applied inspected
  obtain ⟨fitting, compatible⟩ := Dump.Loaded.elements_eq_ok_iff.mp built
  obtain ⟨layouts, drawn, tags, rfl⟩ := Layout.exists_layouts fitting
  have fits := @Layout.allEdits_fit settled loaded.source layouts drawn
  have planned := Layout.edits_checkAll settled layouts
  have accepted : (∃ fixed, applied = .ok fixed) ↔ layouts.Pairwise fun first second =>
      ∀ edit ∈ first.edits settled, ∀ other ∈ second.edits settled, Edit.Apart edit other := by
    rw [← Layout.allEdits_apart_iff, ← planned]
    rw [← planned] at fits
    exact Edit.applyAll_isOk_iff.trans (and_iff_right fits)
  refine ⟨?orderly, ?exact, ?refused⟩
  case orderly =>
    intro orderly
    rw [tags, List.map_map, List.pairwise_map] at compatible
    rw [tags, List.pairwise_map] at orderly
    have possible : ∃ fixed, applied = .ok fixed := by
      apply accepted.mpr
      refine (compatible.and orderly).imp_of_mem ?_
      intro first second member otherMember both
      exact Layout.apart_of_orderly ((drawn first member).trans (drawn second otherMember).symm)
        both.1 both.2
    refine ⟨possible, ?_⟩
    rcases Inspection.ofElements_cases config lineEnding loaded.sourcePath loaded.source
      (layouts.map Layout.element) with ⟨_, inspection, _, succeeded⟩ | ⟨error, failed, _⟩
    · exact ⟨inspection, succeeded⟩
    · obtain ⟨fixed, made⟩ := possible
      cases made.symm.trans failed
  case exact =>
    rw [accepted, List.pairwise_map]
    simp only [Layout.edits, List.forall_mem_map]
  case refused =>
    intro error failed
    rcases Inspection.ofElements_cases config lineEnding loaded.sourcePath loaded.source
      (layouts.map Layout.element) with ⟨fixed, _, made, _⟩ | ⟨reason, refused, told⟩
    · cases made.symm.trans failed
    · cases refused.symm.trans failed
      obtain ⟨edit, -, named⟩ := Edit.applyAll_error_of_fits (planned ▸ fits) refused
      exact ⟨told, edit.start, named⟩

/-- A tag between two attributes of another one is no part of either, and both tags are fixed. -/
theorem fix_of_tag_in_gap :
    let loaded : Dump.Loaded := ⟨.ofString "App.jsx", "<A b <C d e/> f>".toList,
      [⟨⟨0, 16⟩, [⟨3, 4⟩, ⟨14, 15⟩]⟩, ⟨⟨5, 13⟩, [⟨8, 9⟩, ⟨10, 11⟩]⟩]⟩
    ∃ elements, loaded.elements = .ok elements ∧ loaded.tags.Pairwise TagRanges.Orderly ∧
      ∃ inspection, Inspection.ofElements .default none loaded.sourcePath loaded.source elements =
        .ok inspection := by
  intro loaded
  let elements := (loaded.elementsFrom (.ofText loaded.source) 0 loaded.tags).toOption.getD []
  have resolved : loaded.elementsFrom (.ofText loaded.source) 0 loaded.tags = .ok elements := by
    decide +kernel
  have inside : (loaded.tags.map (·.tag)).Pairwise Nesting.Compatible := by
    refine List.pairwise_pair.mpr (Or.inr (Or.inl ?_))
    exact ⟨by decide, by decide, by decide⟩
  have built : loaded.elements = .ok elements :=
    Dump.Loaded.elements_eq_ok_iff.mpr ⟨Dump.Loaded.elementsFrom_eq_ok_iff.mp resolved, inside⟩
  have orderly : loaded.tags.Pairwise TagRanges.Orderly := by
    refine List.pairwise_pair.mpr ⟨?_, ?_⟩
    · rintro ⟨starts, -⟩
      exact absurd starts (by decide)
    · rintro -
      exact List.forall_mem_singleton.mpr (Or.inr (by decide))
  exact ⟨elements, built, orderly, ((fix_of_orderly_dump built .default none).1 orderly).2⟩

/-- Tags inside each other that share their attributes pass all checks of the dump, and then their
    edits are refused: both tags want to move the second attribute. -/
theorem fix_refused_shared_attributes :
    let loaded : Dump.Loaded := ⟨.ofString "App.jsx", "<A b c/>".toList,
      [⟨⟨0, 8⟩, [⟨3, 4⟩, ⟨5, 6⟩]⟩, ⟨⟨1, 8⟩, [⟨3, 4⟩, ⟨5, 6⟩]⟩]⟩
    ∃ elements, loaded.elements = .ok elements ∧
      Edit.applyAll loaded.source ((Rule.checkAll .default elements).map Violation.edit) =
        .error (.overlappingEdits 4) ∧
      Inspection.ofElements .default none loaded.sourcePath loaded.source elements =
        .error (.edits loaded.sourcePath (.overlappingEdits 4)) := by
  intro loaded
  let elements := (loaded.elementsFrom (.ofText loaded.source) 0 loaded.tags).toOption.getD []
  have refused : Edit.applyAll loaded.source
      ((Rule.checkAll .default elements).map Violation.edit) = .error (.overlappingEdits 4) := by
    rw [Edit.applyAll_of_decreasing (by decide +kernel)]
    decide +kernel
  have resolved : loaded.elementsFrom (.ofText loaded.source) 0 loaded.tags = .ok elements := by
    decide +kernel
  have inside : (loaded.tags.map (·.tag)).Pairwise Nesting.Compatible := by
    refine List.pairwise_pair.mpr (Or.inr (Or.inl ?_))
    exact ⟨by decide, by decide, by decide⟩
  refine ⟨elements, ?_, refused, ?_⟩
  · exact Dump.Loaded.elements_eq_ok_iff.mpr
      ⟨Dump.Loaded.elementsFrom_eq_ok_iff.mp resolved, inside⟩
  · rcases Inspection.ofElements_cases .default none loaded.sourcePath loaded.source elements with
      ⟨fixed, _, made, _⟩ | ⟨error, failed, told⟩
    · cases refused.symm.trans made
    · cases refused.symm.trans failed
      exact told

end TagWrap
