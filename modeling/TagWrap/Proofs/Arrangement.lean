import TagWrap.Proofs.Moves

/-!
# Tags whose edits can be made together

Two tags of one source stand beside each other, or one of them is part of the value of an
attribute of the other. Either way their edits do not meet: the edits of a tag lie strictly
inside it and outside all of its attributes. A batch is accepted when its edits fit the source
and no two of them meet, so the edits of tags that are arranged like this can always be made.
-/
namespace TagWrap

open Text

namespace TagRanges

/-- Two tags stand beside each other: one ends where the other starts, or before. -/
def Beside (first second : TagRanges) : Prop :=
  first.tag.stop ≤ second.tag.start ∨ second.tag.stop ≤ first.tag.start

/-- A tag lies inside an attribute of another one. -/
def Within (inner outer : TagRanges) : Prop :=
  ∃ range ∈ outer.attributes, range.start ≤ inner.tag.start ∧ inner.tag.stop ≤ range.stop

/-- Two tags stand beside each other, or one lies inside an attribute of the other. -/
def Arranged (first second : TagRanges) : Prop :=
  Beside first second ∨ Within first second ∨ Within second first

end TagRanges

namespace Layout

variable {config : RuleConfig} {first second : Layout}

/-- The edits of tags beside each other do not meet, since each lies inside its tag. -/
theorem apart_of_beside (beside : first.ranges.Beside second.ranges) :
    ∀ edit ∈ first.edits config, ∀ other ∈ second.edits config, Edit.Apart edit other := by
  intro edit member other otherMember
  have inside := edit_inside member
  have otherInside := edit_inside otherMember
  rcases beside with ahead | behind
  · exact Or.inl ⟨by omega, by omega⟩
  · exact Or.inr ⟨by omega, by omega⟩

/-- The edits of a tag inside an attribute do not meet those of the tag with the attribute, since
    none of these reaches into an attribute. -/
theorem apart_of_within (within : first.ranges.Within second.ranges) :
    ∀ edit ∈ first.edits config, ∀ other ∈ second.edits config, Edit.Apart edit other := by
  intro edit member other otherMember
  obtain ⟨range, inAttribute, starts, stops⟩ := within
  have inside := edit_inside member
  have forward := (edit_inside otherMember).2.1
  rcases edit_clear otherMember inAttribute with before | after
  · exact Or.inr ⟨by omega, by omega⟩
  · exact Or.inl ⟨by omega, by omega⟩

/-- The edits of arranged tags do not meet. -/
theorem apart_of_arranged (arranged : first.ranges.Arranged second.ranges) :
    ∀ edit ∈ first.edits config, ∀ other ∈ second.edits config, Edit.Apart edit other := by
  rcases arranged with beside | inner | outer
  · exact apart_of_beside beside
  · exact apart_of_within inner
  · intro edit member other otherMember
    exact (apart_of_within outer other otherMember edit member).symm

/-- All edits of tags, tag by tag. -/
def allEdits (config : RuleConfig) (layouts : List Layout) : List Edit :=
  layouts.flatMap (edits config)

/-- The violations of elements come with the edits of their tags. -/
theorem edits_checkAll (config : RuleConfig) (layouts : List Layout) :
    (Rule.checkAll config (layouts.map element)).map Violation.edit = allEdits config layouts := by
  rw [Rule.checkAll, List.flatMap_map, List.map_flatMap]
  rfl

/-- No two edits of tags meet exactly when no two edits of different tags do, since the edits of one
    tag are in increasing order. -/
theorem allEdits_apart_iff {layouts : List Layout} :
    (allEdits config layouts).Pairwise Edit.Apart ↔ layouts.Pairwise fun first second =>
      ∀ edit ∈ first.edits config, ∀ other ∈ second.edits config, Edit.Apart edit other := by
  rw [allEdits, List.pairwise_flatMap]
  refine and_iff_right fun layout _ => ?_
  exact (layout.edits_precede config).imp Or.inl

/-- No two edits of arranged tags meet. -/
theorem allEdits_apart {layouts : List Layout}
    (arranged : (layouts.map ranges).Pairwise TagRanges.Arranged) :
    (allEdits config layouts).Pairwise Edit.Apart :=
  allEdits_apart_iff.mpr ((List.pairwise_map.mp arranged).imp apart_of_arranged)

/-- The edits of tags fit the source that the tags are drawn on. -/
theorem allEdits_fit {source : Text} {layouts : List Layout}
    (drawn : ∀ layout ∈ layouts, layout.source = source) :
    ∀ edit ∈ allEdits config layouts, Edit.Fits source edit := by
  intro edit member
  obtain ⟨layout, listed, own⟩ := List.mem_flatMap.mp member
  rw [← drawn layout listed]
  exact edit_fits own

end Layout

/-- The planned edits of arranged tags can always be made. The edits of one tag are in strictly
    increasing order and on boundaries of the source, each between the attribute before and its
    own attribute, and those of different tags do not meet. -/
theorem fix_of_arranged_tags {source : Text} {tags : List TagRanges} {elements : List Element}
    {config : RuleConfig} (accepted : List.Forall₂ (TagRanges.Accepted source) tags elements)
    (arranged : tags.Pairwise TagRanges.Arranged) :
    (∃ fixed, Edit.applyAll source ((Rule.checkAll config elements).map Violation.edit) =
      .ok fixed) ∧
    (∀ element ∈ elements,
      ((Rule.check config element).map Violation.edit).Pairwise Edit.Precedes ∧
      ∀ violation ∈ Rule.check config element,
        Edit.Fits source violation.edit ∧
        ∃ earlier previous own later,
          element.attributes = earlier ++ previous :: own :: later ∧
          violation.subject = own.name ∧ violation.location = own.span ∧
          previous.span.stop.offset ≤ violation.edit.start ∧
          violation.edit.stop = own.span.start.offset) ∧
    elements.Pairwise fun first second =>
      ∀ violation ∈ Rule.check config first, ∀ other ∈ Rule.check config second,
        Edit.Apart violation.edit other.edit := by
  obtain ⟨layouts, drawn, rfl, rfl⟩ := Layout.exists_layouts accepted
  refine ⟨?_, ?_, ?_⟩
  · rw [Layout.edits_checkAll]
    exact Edit.applyAll_isOk_iff.mpr ⟨Layout.allEdits_fit drawn, Layout.allEdits_apart arranged⟩
  · intro element member
    obtain ⟨layout, listed, rfl⟩ := List.mem_map.mp member
    refine ⟨layout.edits_precede config, fun violation found => ⟨?_, Layout.move_between found⟩⟩
    rw [← drawn layout listed]
    exact Layout.edit_fits (List.mem_map_of_mem found)
  · refine List.pairwise_map.mpr ((List.pairwise_map.mp arranged).imp ?_)
    intro first second apart violation found other otherFound
    exact Layout.apart_of_arranged apart _ (List.mem_map_of_mem found) _
      (List.mem_map_of_mem otherFound)

/-- A tag inside an attribute and the tag around it are both fixed. -/
theorem fix_of_nested_tags :
    let source := "<A b=\x7b<C d e/>\x7d f>".toList
    let outer : TagRanges := ⟨⟨0, 18⟩, [⟨3, 15⟩, ⟨16, 17⟩]⟩
    let inner : TagRanges := ⟨⟨6, 14⟩, [⟨9, 10⟩, ⟨11, 12⟩]⟩
    ∃ elements, List.Forall₂ (TagRanges.Accepted source) [outer, inner] elements ∧
      [outer, inner].Pairwise TagRanges.Arranged ∧
      ∃ fixed, Edit.applyAll source
        ((Rule.checkAll ⟨.flat 1, .always, .lf⟩ elements).map Violation.edit) = .ok fixed := by
  intro source outer inner
  have accepted : ∃ elements, List.Forall₂ (TagRanges.Accepted source) [outer, inner] elements :=
    ⟨_, .cons rfl (.cons rfl .nil)⟩
  have arranged : [outer, inner].Pairwise TagRanges.Arranged :=
    List.pairwise_pair.mpr (Or.inr (Or.inr ⟨⟨3, 15⟩, by decide, by decide, by decide⟩))
  obtain ⟨elements, built⟩ := accepted
  exact ⟨elements, built, arranged, (fix_of_arranged_tags built arranged).1⟩

end TagWrap
