import TagWrap.Proofs.Layout
import TagWrap.Rule

/-!
# Elements with indents of spaces

An element can be built from a source or from attributes that are resolved already. The indent of
the first is read off the source: it is what leads to the first attribute on its line, with its tabs
kept. The other one has no source to look at and takes a space for each column in front of the first
attribute.

The two have the same length, since the column counts the characters that the indent is read off, and
they differ only where there is a tab. An indent is nothing but the text that an edit puts in, so what
is reported and where the edits are made is the same for both elements (`rebuilt_element_agrees`).
-/
namespace TagWrap

open Text

/-- What stands in front of an offset on its line: it reaches back to the start of the source or to
    a line feed, and there is none in it. -/
def Text.LineUpTo (source : Text) (offset : Nat) (line : Text) : Prop :=
  ∃ lines back, source = lines ++ line ++ back ∧ (lines = [] ∨ ∃ text, lines = text ++ ['\n']) ∧
    '\n' ∉ line ∧ byteSize (lines ++ line) = offset

/-- The last line in front of a cut stands there. -/
theorem Text.lineUpTo_lastLine (front back : Text) :
    LineUpTo (front ++ back) (byteSize front) (Element.lastLine front) := by
  obtain ⟨lines, whole, lone, begins⟩ := Element.exists_lastLine front
  exact ⟨lines, back, by rw [← whole], begins, lone, by rw [← whole]⟩

/-- Nothing else stands there, since what it is joined to has no last line of its own. -/
theorem Text.LineUpTo.eq_lastLine {front back line : Text}
    (stands : LineUpTo (front ++ back) (byteSize front) line) : line = Element.lastLine front := by
  obtain ⟨lines, rest, whole, begins, lone, size⟩ := stands
  obtain ⟨rfl, -⟩ := cut_unique whole size.symm
  rw [Element.lastLine_append lone, Element.lastLine_eq_nil begins, List.nil_append]

/-- A character as it stands in an indent of spaces. -/
def spaceForTab (char : Char) : Char := if char = '\t' then ' ' else char

namespace Element

/-- With spaces for its tabs an indent has a space under each character of the line. -/
theorem map_spaceForTab_indentUnder (line : Text) :
    (indentUnder line).map spaceForTab = List.replicate line.length ' ' := by
  rw [indentUnder, List.map_map]
  apply List.map_eq_replicate_iff.mpr
  intro char _
  by_cases tab : char = '\t' <;> simp [spaceForTab, tab]

/-- An indent stays as it is when spaces take the place of its tabs, if there is no tab in the line. -/
theorem map_spaceForTab_eq_iff {line : Text} :
    (indentUnder line).map spaceForTab = indentUnder line ↔ '\t' ∉ line := by
  constructor
  · intro same tab
    have kept : '\t' ∈ indentUnder line := List.mem_map.mpr ⟨'\t', tab, rfl⟩
    rw [← same, map_spaceForTab_indentUnder] at kept
    have space := List.eq_of_mem_replicate kept
    contradiction
  · intro tabless
    rw [map_spaceForTab_indentUnder]
    symm
    apply List.map_eq_replicate_iff.mpr
    intro char member
    have other : char ≠ '\t' := ne_of_mem_of_not_mem member tabless
    exact if_neg other

end Element

/-- The indent of a tag is read off the line of its first attribute, which has as many characters as
    the attribute has columns in front of it. -/
theorem Layout.exists_line {layout : Layout} {first : Attribute}
    (opens : first ∈ layout.element.attributes.head?) :
    ∃ front back, layout.source = front ++ back ∧ first.span.start.offset = byteSize front ∧
      layout.element.indent = Element.indentUnder (Element.lastLine front) ∧
      first.startColumn = (Element.lastLine front).length := by
  cases drawn : layout.pieces with
  | nil => simp [element, drawn] at opens
  | cons piece others =>
      simp only [element, drawn, List.head?_cons, Option.mem_def, Option.some.injEq] at opens ⊢
      subst opens
      refine ⟨layout.front ++ piece.gap,
        piece.body ++ Piece.flat others ++ layout.tail ++ layout.back, ?_, rfl, rfl, rfl⟩
      simp [source, inner, drawn]

/-- What is reported and where the edit is made, apart from what the edit puts there. -/
def Violation.site (violation : Violation) : AttributeName × Span × Span :=
  (violation.subject, violation.location, violation.edit.span)

/-- An indent decides about no site of a group. -/
theorem LineGroup.sites_violations (limit : LineLimit) (indent other : Text)
    (lineEnding : LineEnding) (group : LineGroup) :
    (group.violations limit indent lineEnding).map Violation.site =
      (group.violations limit other lineEnding).map Violation.site := by
  rw [violations, violations]
  split
  · rfl
  · rw [List.map_map, List.map_map]
    exact List.map_congr_left fun _ _ => rfl

/-- Elements that differ in nothing but the indent have their violations at the same sites. -/
theorem Rule.sites_check (config : RuleConfig) {first second : Element}
    (span : first.span = second.span) (attributes : first.attributes = second.attributes) :
    (check config first).map Violation.site = (check config second).map Violation.site := by
  have empty : first.isEmpty = second.isEmpty := by rw [Element.isEmpty, attributes, Element.isEmpty]
  have multiline : first.isMultiline = second.isMultiline := by
    rw [Element.isMultiline, span, Element.isMultiline]
  rw [check, check, empty, multiline, attributes]
  split
  · rfl
  · dsimp only
    split
    · rw [planBreaks, planBreaks, List.map_flatMap, List.map_flatMap]
      congr 1
      funext group
      exact group.sites_violations _ _ _ _
    · rfl

/-- An element that is built again from its own span and attributes has the same span and attributes.
    The indents have one character for each column in front of the first attribute, and none without
    attributes. They differ only in that the new one has a space where the old one has a tab. So the
    new element is the old one exactly when there is no tab in front of the first attribute on its
    line. Whatever the configuration, both have violations of the same attributes at the same
    places, and the edits are made at the same places. -/
theorem rebuilt_element_agrees {source : Text} {ranges : TagRanges} {element : Element}
    (accepted : ranges.Accepted source element) :
    let rebuilt := Element.ofAttributes element.span element.attributes
    rebuilt.span = element.span ∧ rebuilt.attributes = element.attributes ∧
    rebuilt.indent.length = element.indent.length ∧
    element.indent.length = (element.attributes.head?.map Attribute.startColumn).getD 0 ∧
    rebuilt.indent = element.indent.map spaceForTab ∧
    (rebuilt = element ↔ ∀ first ∈ element.attributes.head?,
      ∃ line, LineUpTo source first.span.start.offset line ∧ '\t' ∉ line) ∧
    ∀ config, (Rule.check config rebuilt).map Violation.site =
      (Rule.check config element).map Violation.site := by
  obtain ⟨layout, rfl, rfl, rfl⟩ := Layout.accepted_iff.mp accepted
  intro rebuilt
  have same_iff : rebuilt = layout.element ↔ rebuilt.indent = layout.element.indent :=
    ⟨fun same => same ▸ rfl, fun same => congrArg (Element.mk _ _) same⟩
  have sites (config : RuleConfig) : (Rule.check config rebuilt).map Violation.site =
      (Rule.check config layout.element).map Violation.site := Rule.sites_check config rfl rfl
  cases opens : layout.element.attributes.head? with
  | none =>
      obtain ⟨spaced, read⟩ : rebuilt.indent = [] ∧ layout.element.indent = [] := by
        cases drawn : layout.pieces with
        | nil => simp [rebuilt, Element.ofAttributes, Layout.element, drawn]
        | cons piece others => simp [Layout.element, drawn] at opens
      rw [same_iff, spaced, read]
      exact ⟨rfl, rfl, rfl, rfl, rfl, by simp, sites⟩
  | some first =>
      obtain ⟨front, back, whole, starts, read, column⟩ := Layout.exists_line opens
      have spaced : rebuilt.indent = layout.element.indent.map spaceForTab := by
        obtain ⟨others, row⟩ := List.head?_eq_some_iff.mp opens
        rw [read, Element.map_spaceForTab_indentUnder, ← column]
        simp [rebuilt, Element.ofAttributes, row]
      refine ⟨rfl, rfl, by rw [spaced, List.length_map], ?counted, spaced, ?tabs, sites⟩
      case counted =>
        rw [read, Element.indentUnder, List.length_map, ← column]
        rfl
      case tabs =>
        rw [same_iff, spaced, read, Element.map_spaceForTab_eq_iff]
        constructor
        · rintro tabless _ ⟨⟩
          exact ⟨_, starts ▸ whole ▸ lineUpTo_lastLine front back, tabless⟩
        · intro found
          obtain ⟨line, stands, tabless⟩ := found first rfl
          rw [starts, whole] at stands
          exact stands.eq_lastLine ▸ tabless

/-- Behind a tab and a character of two bytes the two indents have four characters. The tab is a
    space in the new one, so the elements differ, and the violation of the second attribute is found
    at the same place. -/
theorem rebuilt_element_agrees_tabbed :
    ∃ element, TagRanges.Accepted "\t<é b c>".toList ⟨⟨1, 9⟩, [⟨5, 6⟩, ⟨7, 8⟩]⟩ element ∧
      let rebuilt := Element.ofAttributes element.span element.attributes
      element.indent = "\t   ".toList ∧ rebuilt.indent = "    ".toList ∧ rebuilt ≠ element ∧
      (Rule.check .default rebuilt).map Violation.site =
        (Rule.check .default element).map Violation.site ∧
      (Rule.check .default element).length = 1 := by
  have built : ∃ element,
      TagRanges.Accepted "\t<é b c>".toList ⟨⟨1, 9⟩, [⟨5, 6⟩, ⟨7, 8⟩]⟩ element ∧
      element.indent = "\t   ".toList ∧ (Rule.check .default element).length = 1 :=
    ⟨_, rfl, by decide, by decide⟩
  obtain ⟨element, accepted, read, single⟩ := built
  obtain ⟨-, -, -, -, spaced, -, sites⟩ := rebuilt_element_agrees accepted
  have four : (Element.ofAttributes element.span element.attributes).indent = "    ".toList := by
    rw [spaced, read]
    decide
  refine ⟨element, accepted, read, four, ?_, sites .default, single⟩
  intro same
  rw [same, read] at four
  contradiction

end TagWrap
