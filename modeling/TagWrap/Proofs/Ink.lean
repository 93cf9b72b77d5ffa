import TagWrap.Proofs.Moves

/-!
# The fix moves blanks only

The ink of a text is what is left of it without its blanks. An edit of the rule puts blanks in
the place of blanks: the end of a gap gives way to a line break and an indent. A splice by such
edits keeps the ink, so the fixed source has the ink of the source, whatever the elements are
and however they lie to each other, as long as the batch of their edits is accepted.

The blanks of the first attribute of a tag are no exception to this. The search for them starts
inside the tag and may miss the boundaries of the source, but the first attribute never moves.
-/
namespace TagWrap

open Text

/-- A text without its blanks. -/
def Text.ink (text : Text) : Text := text.filter fun char => !isBlank char

@[simp] theorem Text.ink_append (front back : Text) : ink (front ++ back) = ink front ++ ink back :=
  List.filter_append ..

/-- A text has no ink when each of its characters is blank. -/
theorem Text.ink_eq_nil {text : Text} (blank : ∀ char ∈ text, isBlank char = true) :
    ink text = [] :=
  List.filter_eq_nil_iff.mpr fun char member => by simp [blank char member]

/-- A line ending has no ink. -/
theorem LineEnding.ink_text (lineEnding : LineEnding) : ink lineEnding.text = [] := by
  cases lineEnding <;> decide

namespace Edit

/-- An edit is blank when neither what it takes from the source nor what it puts there has ink. -/
def Blank (source : Text) (edit : Edit) : Prop :=
  ∃ gone, Takes source edit gone ∧ ink gone = [] ∧ ink edit.replacement = []

/-- A splice of a source by blank edits keeps the ink. -/
theorem Spliced.ink_eq {source result : Text} {edits : List Edit}
    (spliced : Spliced 0 source edits result) (blank : ∀ edit ∈ edits, Blank source edit) :
    ink result = ink source := by
  refine spliced.induction_taken (motive := fun text _ result => ink result = ink text) [] [] rfl
    (by simp) blank (fun _ => rfl) ?_
  intro kept gone after edit edits result inkless same
  simp [inkless.1, inkless.2, same]

end Edit

/-- The indent of a tag has no ink. -/
theorem Layout.ink_indent (layout : Layout) : ink layout.element.indent = [] := by
  refine ink_eq_nil fun char member => ?_
  rcases mem_indent member with rfl | rfl
  · decide
  · decide

/-- The edits of a tag are blank. -/
theorem Layout.blank_edits {config : RuleConfig} {layout : Layout} {edit : Edit}
    (member : edit ∈ layout.edits config) : Edit.Blank layout.source edit := by
  obtain ⟨indent, gone, takes, -, blank, replaced, indented⟩ := exists_taken member
  refine ⟨gone, takes, ink_eq_nil blank, ?_⟩
  rw [replaced]
  rcases indented with rfl | rfl
  · simp [LineEnding.ink_text, ink_indent]
  · simpa using config.lineEnding.ink_text

/-- The fix never touches anything but white space. Whatever elements are accepted on a source,
    and however their tags lie to each other, an accepted batch of their edits leaves a source
    with the same ink.

    Each edit is blank, and an accepted batch is a splice. -/
theorem ink_of_fixed {source fixed : Text} {elements : List Element} {config : RuleConfig}
    (accepted : ∀ element ∈ elements, ∃ ranges : TagRanges, ranges.Accepted source element)
    (applied : Edit.applyAll source ((Rule.checkAll config elements).map Violation.edit) =
      .ok fixed) : ink fixed = ink source := by
  obtain ⟨ordered, same, -, spliced⟩ := Edit.applyAll_eq_ok_iff.mp applied
  refine spliced.ink_eq ?_
  intro edit member
  obtain ⟨violation, found, rfl⟩ := List.mem_map.mp (same.mem_iff.mp member)
  obtain ⟨element, listed, own⟩ := List.mem_flatMap.mp found
  obtain ⟨ranges, built⟩ := accepted element listed
  obtain ⟨layout, rfl, rfl, rfl⟩ := Layout.accepted_iff.mp built
  exact Layout.blank_edits (List.mem_map_of_mem own)

/-- A no-break space is blank, so it gives way to a line break like any other. -/
theorem ink_of_fixed_no_break_space :
    ∃ element, TagRanges.Accepted "<A b\u00A0c>".toList ⟨⟨0, 8⟩, [⟨3, 4⟩, ⟨6, 7⟩]⟩ element ∧
      Edit.applyAll "<A b\u00A0c>".toList
        ((Rule.checkAll ⟨.flat 1, .always, .crlf⟩ [element]).map Violation.edit) =
          .ok "<A b\r\n   c>".toList ∧
      ink "<A b\r\n   c>".toList = ink "<A b\u00A0c>".toList := by
  refine ⟨_, rfl, ?applied, ink_of_fixed ?accepted ?applied⟩
  case applied => decide +kernel
  case accepted =>
    intro element member
    rw [List.mem_singleton.mp member]
    exact ⟨⟨⟨0, 8⟩, [⟨3, 4⟩, ⟨6, 7⟩]⟩, rfl⟩

end TagWrap
