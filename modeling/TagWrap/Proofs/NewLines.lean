import Mathlib.Data.List.Perm.Subperm
import TagWrap.Proofs.Arrangement

/-!
# Each edit adds a line

An edit of the rule takes no line feed out of the source and puts one there. So the line feeds of
a fixed source tell how many edits were made, and of two batches, one of which contains the other,
the results are the same only if the batches are.
-/
namespace TagWrap

open Text

/-- A line ending has one line feed. -/
theorem LineEnding.count_feed (lineEnding : LineEnding) : lineEnding.text.count '\n' = 1 := by
  cases lineEnding <;> rfl

namespace Edit

/-- An edit adds a line when it takes no line feed out of the source and puts one there. -/
def AddsLine (source : Text) (edit : Edit) : Prop :=
  ∃ gone, Takes source edit gone ∧ '\n' ∉ gone ∧ edit.replacement.count '\n' = 1

/-- A splice by edits that add a line each has as many more line feeds as edits. -/
theorem Spliced.count_feed {source result : Text} {edits : List Edit}
    (spliced : Spliced 0 source edits result) (adds : ∀ edit ∈ edits, AddsLine source edit) :
    result.count '\n' = source.count '\n' + edits.length := by
  refine spliced.induction_taken
    (motive := fun text edits result => result.count '\n' = text.count '\n' + edits.length)
    [] [] rfl (by simp) adds (fun _ => rfl) ?_
  intro kept gone after edit edits result feeds counted
  have gone_none : gone.count '\n' = 0 := List.count_eq_zero.mpr feeds.1
  simp only [List.count_append, List.length_cons, gone_none, feeds.2, counted]
  omega

/-- A batch of edits that add a line each has the result of a part of it exactly when it is no more
    than the part. The line feeds of the result count the edits. -/
theorem applyAll_part_iff {source fixed fixed' : Text} {part all : List Edit}
    (adds : ∀ edit ∈ all, AddsLine source edit) (within : part ⊆ all)
    (applied : applyAll source part = .ok fixed) (appliedAll : applyAll source all = .ok fixed') :
    fixed = fixed' ↔ all ⊆ part := by
  have partNodup := nodup_of_applyAll applied
  have allNodup := nodup_of_applyAll appliedAll
  constructor
  · rintro rfl
    obtain ⟨ordered, same, -, spliced⟩ := applyAll_eq_ok_iff.mp applied
    obtain ⟨ordered', same', -, spliced'⟩ := applyAll_eq_ok_iff.mp appliedAll
    have counted := spliced.count_feed fun edit member =>
      adds edit (within (same.mem_iff.mp member))
    have counted' := spliced'.count_feed fun edit member => adds edit (same'.mem_iff.mp member)
    have lengths : all.length = part.length := by
      rw [← same.length_eq, ← same'.length_eq]
      omega
    have perm : part.Perm all :=
      (List.subperm_of_subset partNodup within).perm_of_length_le (Nat.le_of_eq lengths)
    exact perm.symm.subset
  · intro covered
    have perm : part.Perm all := (List.perm_ext_iff_of_nodup partNodup allNodup).mpr fun edit =>
      ⟨fun member => within member, fun member => covered member⟩
    exact Except.ok.inj ((applyAll_perm perm applied).symm.trans appliedAll)

end Edit

/-- The indent of a tag has no line feed. -/
theorem Layout.feed_not_mem_indent (layout : Layout) : '\n' ∉ layout.element.indent := by
  intro feed
  rcases mem_indent feed with tab | space
  · exact absurd tab (by decide)
  · exact absurd space (by decide)

/-- Each edit of a tag adds a line. -/
theorem Layout.edit_adds_line {config : RuleConfig} {layout : Layout} {edit : Edit}
    (member : edit ∈ layout.edits config) : Edit.AddsLine layout.source edit := by
  obtain ⟨indent, gone, takes, lineless, -, replaced, indented⟩ := exists_taken member
  refine ⟨gone, takes, lineless, ?_⟩
  have none_more : indent.count '\n' = 0 := by
    refine List.count_eq_zero.mpr ?_
    rcases indented with rfl | rfl
    · exact layout.feed_not_mem_indent
    · exact List.not_mem_nil
  rw [replaced, List.count_append, LineEnding.count_feed, none_more]

/-- Each edit for accepted elements adds a line. -/
theorem TagRanges.edits_add_lines {source : Text} {elements : List Element} {config : RuleConfig}
    (accepted : ∀ element ∈ elements, ∃ ranges : TagRanges, ranges.Accepted source element) :
    ∀ edit ∈ (Rule.checkAll config elements).map Violation.edit, Edit.AddsLine source edit := by
  intro edit planned
  obtain ⟨layout, rfl, -, own⟩ := Layout.exists_drawn accepted planned
  exact Layout.edit_adds_line own

end TagWrap
