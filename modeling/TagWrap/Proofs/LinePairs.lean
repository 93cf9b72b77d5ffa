import Mathlib.Data.List.Chain
import Mathlib.Data.List.Infix
import TagWrap.Proofs.NewLines

/-!
# Fixed sources keep to their line ending

A source without pairs of a carriage return and a line feed gets none by a fix, and a source in
which each line feed belongs to such a pair stays one. Both are statements about neighbours: a text
keeps to a line ending when no character stands behind one that the line ending does not allow
there.

So all that counts are the two seams of an edit. What an edit puts into the source starts with the
line ending and ends in a line feed, a tab or a space. It comes to stand between characters of the
source that are not blank, provided that attributes neither begin nor end with blanks, or else
next to what another edit puts there. None of these neighbours is a carriage return in front of a
lone line feed, whatever carriage returns stood among the blanks that are taken out.
-/
namespace TagWrap

open Text

/-- Each line feed of a text stands directly behind a carriage return. -/
def Text.FeedsPaired (text : Text) : Prop :=
  ∀ front back, text = front ++ '\n' :: back → front.getLast? = some '\r'

/-- The source text of an attribute. -/
def Attribute.text? (source : Text) (attr : Attribute) : Option Text :=
  slice? source attr.span.start.offset attr.span.stop.offset

namespace LineEnding

/-- The first character of a line ending. -/
def opening : LineEnding → Char
  | lf => '\n'
  | crlf => '\r'

/-- Where lines end in one way throughout, the second character may stand behind the first: no pair
    is allowed among lone line feeds, and no lone line feed among pairs. -/
def Allows : LineEnding → Char → Char → Prop
  | lf, first, second => ¬ (first = '\r' ∧ second = '\n')
  | crlf, first, second => second = '\n' → first = '\r'

instance (lineEnding : LineEnding) : DecidableRel lineEnding.Allows := fun first second =>
  match lineEnding with
  | lf => inferInstanceAs (Decidable ¬ (first = '\r' ∧ second = '\n'))
  | crlf => inferInstanceAs (Decidable (second = '\n' → first = '\r'))

variable {lineEnding : LineEnding} {first second : Char} {text indent : Text}

/-- A source has a pair when a carriage return stands directly before a line feed. -/
theorem hasPair_iff : hasPair text = true ↔ ['\r', '\n'] <:+: text := by
  fun_induction hasPair text with
  | case1 rest => simpa using (List.prefix_append ['\r', '\n'] rest).isInfix
  | case2 first rest other inductionHypothesis =>
      rw [inductionHypothesis, List.infix_cons_iff]
      constructor
      · exact Or.inr
      · rintro (⟨back, start⟩ | later)
        · obtain ⟨rfl, rfl⟩ := List.cons.inj start
          exact absurd rfl (other back rfl)
        · exact later
  | case3 => simp

/-- Lone line feeds are the line ending of a source without pairs. -/
theorem detect_eq_lf_iff : detect text = lf ↔ ¬ ['\r', '\n'] <:+: text := by
  rw [detect, ← hasPair_iff]
  cases hasPair text <;> simp

/-- A text without pairs is one of lone line feeds. -/
theorem isChain_lf_iff : text.IsChain lf.Allows ↔ ¬ ['\r', '\n'] <:+: text := by
  rw [List.isChain_iff_forall_rel_of_append_cons_cons]
  constructor
  · rintro allowed ⟨front, back, rfl⟩
    exact allowed (List.append_assoc front _ back) ⟨rfl, rfl⟩
  · rintro unpaired first second front back rfl ⟨rfl, rfl⟩
    exact unpaired ⟨front, back, by simp⟩

/-- A text of pairs is one in which each line feed is part of a pair. -/
theorem feedsPaired_iff :
    FeedsPaired text ↔ text.IsChain crlf.Allows ∧ text.head? ≠ some '\n' := by
  rw [List.isChain_iff_forall_rel_of_append_cons_cons]
  constructor
  · intro paired
    constructor
    · rintro first second front back rfl rfl
      have behind := paired (front ++ [first]) back (by simp)
      simpa using behind
    · intro starts
      obtain ⟨back, rfl⟩ := List.head?_eq_some_iff.mp starts
      have behind := paired [] back rfl
      contradiction
  · rintro ⟨allowed, starts⟩ front back rfl
    rcases List.eq_nil_or_concat' front with rfl | ⟨others, last, rfl⟩
    · simp at starts
    · have same : last = '\r' := allowed (List.append_assoc others [last] _) rfl
      simp [same]

instance (text : Text) : Decidable (FeedsPaired text) := decidable_of_iff _ feedsPaired_iff.symm

/-- A source of pairs with a line feed has a pair, so pairs are its line ending. -/
theorem detect_of_feedsPaired (feed : '\n' ∈ text) (paired : FeedsPaired text) :
    detect text = crlf := by
  obtain ⟨front, back, rfl⟩ := List.append_of_mem feed
  obtain ⟨others, rfl⟩ := List.getLast?_eq_some_iff.mp (paired front back rfl)
  have pair : hasPair (others ++ ['\r'] ++ '\n' :: back) = true :=
    hasPair_iff.mpr ⟨others, back, by simp⟩
  rw [detect, if_pos pair]

/-- Whatever is no line feed may stand behind any character. -/
theorem allows_of_ne_feed (other : second ≠ '\n') : lineEnding.Allows first second := by
  cases lineEnding
  · exact fun pair => other pair.2
  · exact fun feed => absurd feed other

/-- A line ending may begin behind any character that is not blank. -/
theorem allows_opening (shown : isBlank first = false) :
    lineEnding.Allows first lineEnding.opening := by
  cases lineEnding
  · rintro ⟨rfl, -⟩
    exact absurd shown (by decide)
  · exact allows_of_ne_feed (by decide)

/-- What is not blank may stand behind any character, and a line ending may begin behind any but a
    carriage return. -/
theorem allows_behind (ends : first ≠ '\r')
    (follows : isBlank second = false ∨ second = lineEnding.opening) :
    lineEnding.Allows first second := by
  rcases follows with shown | rfl
  · apply allows_of_ne_feed
    rintro rfl
    exact absurd shown (by decide)
  · cases lineEnding
    · exact fun pair => ends pair.1
    · exact allows_of_ne_feed (by decide)

/-- Behind its first character a text may have anything but line feeds. -/
theorem isChain_of_feedless (feedless : '\n' ∉ text) :
    (first :: text).IsChain lineEnding.Allows := by
  induction text generalizing first with
  | nil => exact List.isChain_singleton first
  | cons next rest inductionHypothesis =>
      rw [List.mem_cons, not_or] at feedless
      apply List.isChain_cons_cons.mpr
      exact ⟨allows_of_ne_feed (Ne.symm feedless.1), inductionHypothesis feedless.2⟩

/-- What an edit puts into a source keeps to the line ending that it begins with, and it does not
    end in a carriage return. -/
theorem isChain_indented (indented : ∀ char ∈ indent, char = '\t' ∨ char = ' ') :
    (lineEnding.text ++ indent).IsChain lineEnding.Allows ∧
      (lineEnding.text ++ indent).head? = some lineEnding.opening ∧
        ∀ char ∈ (lineEnding.text ++ indent).getLast?, char ≠ '\r' := by
  have feedless : '\n' ∉ indent := by
    intro feed
    rcases indented _ feed with tab | space
    · exact absurd tab (by decide)
    · exact absurd space (by decide)
  have ends : ∀ char ∈ ('\n' :: indent).getLast?, char ≠ '\r' := by
    rintro _ last rfl
    rcases List.mem_cons.mp (List.mem_of_getLast? last) with feed | listed
    · exact absurd feed (by decide)
    · rcases indented _ listed with tab | space
      · exact absurd tab (by decide)
      · exact absurd space (by decide)
  cases lineEnding with
  | lf => exact ⟨isChain_of_feedless feedless, rfl, ends⟩
  | crlf =>
      refine ⟨List.isChain_cons_cons.mpr ⟨fun _ => rfl, isChain_of_feedless feedless⟩, rfl, ?_⟩
      change ∀ char ∈ ('\r' :: '\n' :: indent).getLast?, char ≠ '\r'
      rwa [List.getLast?_cons_cons]

end LineEnding

namespace Edit

/-- An edit puts a line ending and perhaps an indent between two characters that are not blank, or
    at an end of the source. -/
def Framed (lineEnding : LineEnding) (source : Text) (edit : Edit) : Prop :=
  ∃ front gone back indent, source = front ++ gone ++ back ∧ byteSize front = edit.start ∧
    edit.start + byteSize gone = edit.stop ∧ edit.replacement = lineEnding.text ++ indent ∧
    (∀ char ∈ indent, char = '\t' ∨ char = ' ') ∧
    (∀ char ∈ front.getLast?, isBlank char = false) ∧
    ∀ char ∈ back.head?, isBlank char = false

/-- A splice by framed edits keeps to the line ending of the edits if its source does. What it
    begins with stood at the front of the source, or it is the line ending.

    The induction is on the edits. Behind each of them stands what was behind it in the source,
    which is not blank, or else what the next edit begins with. -/
theorem Spliced.isChain_allows {lineEnding : LineEnding} {base : Nat} {text result : Text}
    {edits : List Edit} (spliced : Spliced base text edits result) (before : Text)
    (size : byteSize before = base)
    (framed : ∀ edit ∈ edits, Framed lineEnding (before ++ text) edit)
    (allowed : text.IsChain lineEnding.Allows) :
    result.IsChain lineEnding.Allows ∧
      (result.head? = text.head? ∨ result.head? = some lineEnding.opening) := by
  induction spliced generalizing before with
  | rest base text => exact ⟨allowed, Or.inl rfl⟩
  | @edit base kept gone after result edit edits begins ends others inductionHypothesis =>
      obtain ⟨front, gone', back, indent, whole, begins', ends', replaced, indented, shownBefore,
        shownBehind⟩ := framed edit List.mem_cons_self
      have cut : (before ++ kept) ++ (gone ++ after) = front ++ (gone' ++ back) := by
        simpa using whole
      obtain ⟨rfl, tails⟩ := cut_unique cut (by rw [byteSize_append]; omega)
      obtain ⟨rfl, rfl⟩ := cut_unique tails (by omega)
      obtain ⟨keptAllowed, afterAllowed, -⟩ := List.isChain_append.mp allowed
      obtain ⟨resultAllowed, starts⟩ := inductionHypothesis (before ++ kept ++ gone)
        (by simp only [byteSize_append]; omega)
        (fun other member => by simpa using framed other (List.mem_cons_of_mem edit member))
        afterAllowed
      obtain ⟨newAllowed, opens, closes⟩ := lineEnding.isChain_indented indented
      rw [← replaced] at newAllowed opens closes
      obtain ⟨rest, filled⟩ := List.head?_eq_some_iff.mp opens
      -- The seam in front of the edit, where something is kept there.
      have seam : ∀ first ∈ kept.getLast?, ∀ second ∈ edit.replacement.head?,
          lineEnding.Allows first second := by
        intro first last second head
        have shown := shownBefore first (by simp [List.getLast?_append, Option.mem_def.mp last])
        obtain rfl := Option.some.inj (opens.symm.trans head)
        exact LineEnding.allows_opening shown
      -- The seam behind it.
      have seam' : ∀ first ∈ (kept ++ edit.replacement).getLast?, ∀ second ∈ result.head?,
          lineEnding.Allows first second := by
        intro first last second head
        rw [List.getLast?_append_of_ne_nil kept (by simp [filled])] at last
        apply LineEnding.allows_behind (closes first last)
        rcases starts with stays | opened
        · exact Or.inl (shownBehind second (stays ▸ head))
        · exact Or.inr (Option.some.inj (head.symm.trans opened))
      constructor
      · apply List.isChain_append.mpr
        refine ⟨List.isChain_append.mpr ⟨?_, newAllowed, seam⟩, resultAllowed, seam'⟩
        exact (List.isChain_append.mp keptAllowed).1
      · cases kept with
        | nil => exact Or.inr (by simp [filled])
        | cons char others => exact Or.inl rfl

end Edit

namespace Layout

variable {config : RuleConfig} {layout : Layout} {edit : Edit}

/-- Each piece of a tag is an attribute of the element, with the text of the piece. -/
theorem exists_attribute {piece : Piece} (drawn : piece ∈ layout.pieces) :
    ∃ attr ∈ layout.element.attributes, attr.text? layout.source = some piece.body := by
  obtain ⟨before, after, cut⟩ := List.append_of_mem drawn
  have whole : layout.source = layout.front ++ Piece.flat before ++ piece.gap ++ piece.body ++
      (Piece.flat after ++ layout.tail ++ layout.back) := by
    rw [source, inner, cut]
    simp
  have sliced : (piece.attributeAt (layout.front ++ Piece.flat before)).text? layout.source =
      some piece.body :=
    slice?_eq_some.mpr ⟨_, _, whole, rfl, (byteSize_append _ _).symm⟩
  cases before with
  | nil =>
      have first : layout.firstAttribute piece ∈ layout.element.attributes := by
        simp [element, cut]
      rw [Piece.flat_nil, List.append_nil] at sliced
      exact ⟨_, first, sliced⟩
  | cons head others =>
      refine ⟨_, ?_, sliced⟩
      simp [element, cut, Piece.attributesAt_append, Piece.attributesAt]

/-- Behind pieces whose texts are bare, and behind what is left of the gap after them, stands no
    blank. -/
theorem last_before_edit {before : List Piece} (some_piece : before ≠ [])
    (bare : ∀ piece ∈ before, Bare piece.body) (front gap : Text) :
    ∀ char ∈ (front ++ Piece.flat before ++ trimEnd gap).getLast?, isBlank char = false := by
  intro char last
  by_cases trimmed : trimEnd gap = []
  · rcases List.eq_nil_or_concat' before with rfl | ⟨others, piece, rfl⟩
    · contradiction
    · have flat : front ++ Piece.flat (others ++ [piece]) ++ trimEnd gap =
          (front ++ Piece.flat others ++ piece.gap) ++ piece.body := by
        simp [trimmed]
      rw [flat, List.getLast?_append_of_ne_nil _ piece.body_ne_nil] at last
      exact (bare piece (by simp)).2 char last
  · rw [List.getLast?_append_of_ne_nil _ trimmed] at last
    exact getLast?_trimEnd gap char last

/-- The edits of a tag are framed when its attributes are bare: an edit starts behind an attribute
    or behind the rest of a gap, and it stops at an attribute. -/
theorem edit_framed (bare : ∀ piece ∈ layout.pieces, Bare piece.body)
    (member : edit ∈ layout.edits config) :
    Edit.Framed config.lineEnding layout.source edit := by
  obtain ⟨before, piece, after, drawn, behind, starts, stops⟩ := exists_gap member
  obtain ⟨indent, _, -, -, -, replaced, indented⟩ := exists_taken member
  obtain ⟨blanks, trimmed, -⟩ := exists_trimEnd piece.gap
  have whole : trimEnd piece.gap ++ blanks = piece.gap := trimmed.symm
  rw [drawn] at bare
  refine ⟨layout.front ++ Piece.flat before ++ trimEnd piece.gap, blanks,
    piece.body ++ (Piece.flat after ++ layout.tail ++ layout.back), indent, ?cut, starts.symm,
    ?size, replaced, ?indent, ?before, ?behind⟩
  case cut =>
    rw [List.append_assoc _ (trimEnd piece.gap), whole, source, inner, drawn]
    simp
  case size =>
    rw [starts, stops, ← byteSize_append, List.append_assoc _ (trimEnd piece.gap), whole]
  case indent =>
    rcases indented with rfl | rfl
    · exact fun char => mem_indent
    · exact fun char none => absurd none List.not_mem_nil
  case before =>
    exact last_before_edit behind (fun other listed => bare other (by simp [listed])) _ _
  case behind =>
    intro char head
    rw [List.head?_append_of_ne_nil _ piece.body_ne_nil] at head
    exact (bare piece (by simp)).1 char head

end Layout

/-- The fix keeps the line endings of a source. Where no attribute begins or ends with a blank and
    lines are broken as the source breaks them: a source without pairs of a carriage return and a
    line feed is fixed to a source without such pairs, and a source whose line feeds all belong to
    pairs, of which there is one, is fixed to such a source. -/
theorem line_endings_kept {source fixed : Text} {elements : List Element} {config : RuleConfig}
    (accepted : ∀ element ∈ elements, ∃ ranges : TagRanges, ranges.Accepted source element)
    (bare : ∀ element ∈ elements, ∀ attr ∈ element.attributes,
      ∀ text ∈ attr.text? source, Bare text)
    (detected : config.lineEnding = .detect source)
    (applied : Edit.applyAll source ((Rule.checkAll config elements).map Violation.edit) =
      .ok fixed) :
    (¬ ['\r', '\n'] <:+: source → ¬ ['\r', '\n'] <:+: fixed) ∧
    ('\n' ∈ source → FeedsPaired source → '\n' ∈ fixed ∧ FeedsPaired fixed) := by
  obtain ⟨ordered, same, -, spliced⟩ := Edit.applyAll_eq_ok_iff.mp applied
  have framed : ∀ edit ∈ ordered, Edit.Framed config.lineEnding source edit := by
    intro edit member
    obtain ⟨layout, rfl, listed, own⟩ := Layout.exists_drawn accepted (same.mem_iff.mp member)
    refine Layout.edit_framed ?_ own
    intro piece drawn
    obtain ⟨attr, found, text⟩ := Layout.exists_attribute drawn
    exact bare _ listed attr found _ text
  have kept := spliced.isChain_allows [] rfl framed
  constructor
  · intro unpaired
    rw [detected, LineEnding.detect_eq_lf_iff.mpr unpaired] at kept
    exact LineEnding.isChain_lf_iff.mp (kept (LineEnding.isChain_lf_iff.mpr unpaired)).1
  · intro feed paired
    rw [detected, LineEnding.detect_of_feedsPaired feed paired] at kept
    obtain ⟨allowed, head⟩ := LineEnding.feedsPaired_iff.mp paired
    obtain ⟨fixedAllowed, starts⟩ := kept allowed
    constructor
    · have counted := spliced.count_feed fun edit member =>
        TagRanges.edits_add_lines accepted edit (same.mem_iff.mp member)
      have positive := List.count_pos_iff.mpr feed
      exact List.count_pos_iff.mp (by omega)
    · apply LineEnding.feedsPaired_iff.mpr
      refine ⟨fixedAllowed, ?_⟩
      rcases starts with stays | opened
      · rwa [stays]
      · simp [opened, LineEnding.opening]

/-- A tag with a stray carriage return among its blanks, and the end of its line. -/
def strayReturn (lineEnd : Text) : Text := "<A b\r c>".toList ++ lineEnd

/-- The stray carriage return is taken out with the other blanks. The line feed that is put there is
    alone or in a pair of its own, as the one that the source ends in. -/
theorem line_endings_kept_stray_return :
    (∃ element, TagRanges.Accepted (strayReturn ['\n']) ⟨⟨0, 8⟩, [⟨3, 4⟩, ⟨6, 7⟩]⟩ element ∧
      Edit.applyAll (strayReturn ['\n'])
        ((Rule.checkAll ⟨.flat 1, .always, .lf⟩ [element]).map Violation.edit) =
          .ok "<A b\n   c>\n".toList ∧
      ¬ ['\r', '\n'] <:+: strayReturn ['\n'] ∧ ¬ ['\r', '\n'] <:+: "<A b\n   c>\n".toList) ∧
    ∃ element, TagRanges.Accepted (strayReturn ['\r', '\n']) ⟨⟨0, 8⟩, [⟨3, 4⟩, ⟨6, 7⟩]⟩ element ∧
      Edit.applyAll (strayReturn ['\r', '\n'])
        ((Rule.checkAll ⟨.flat 1, .always, .crlf⟩ [element]).map Violation.edit) =
          .ok "<A b\r\n   c>\r\n".toList ∧
      FeedsPaired (strayReturn ['\r', '\n']) ∧ FeedsPaired "<A b\r\n   c>\r\n".toList := by
  have lone : ¬ ['\r', '\n'] <:+: strayReturn ['\n'] := by decide
  have paired : FeedsPaired (strayReturn ['\r', '\n']) := by decide
  constructor
  · refine ⟨_, rfl, ?applied, lone,
      (line_endings_kept ?accepted ?bare (by decide) ?applied).1 lone⟩
    case applied => decide +kernel
    case accepted =>
      intro element member
      rw [List.mem_singleton.mp member]
      exact ⟨⟨⟨0, 8⟩, [⟨3, 4⟩, ⟨6, 7⟩]⟩, rfl⟩
    case bare => decide +kernel
  · refine ⟨_, rfl, ?applied', paired,
      ((line_endings_kept ?accepted' ?bare' (by decide) ?applied').2 (by decide) paired).2⟩
    case applied' => decide +kernel
    case accepted' =>
      intro element member
      rw [List.mem_singleton.mp member]
      exact ⟨⟨⟨0, 8⟩, [⟨3, 4⟩, ⟨6, 7⟩]⟩, rfl⟩
    case bare' => decide +kernel

end TagWrap
