import Mathlib.Data.List.Chain
import TagWrap.Proofs.Layout

/-!
# The blanks in front of an attribute

The blanks in front of an attribute are found by trimming the gap behind what precedes the
attribute, so they are as many as the gap ends in. Behind an attribute the gap starts where that
attribute ends, and then this always holds.

The gap in front of the first attribute should start behind the first character of the tag. It is
cut one byte behind the start of the tag, and that is the same only for a character of one byte, as
the opening bracket is. Nothing else is said about the character that a tag starts with. Behind a
wider one there is no such cut, and everything from the middle of that character to the attribute
passes for blank (`leading_blanks_cut_character`). `leading_blanks_longest_iff` says that nothing
else goes wrong.
-/
namespace TagWrap

open Text

/-- Where the gap in front of an attribute starts: at the end of the attribute before it, or behind
    the first character of the tag. -/
def gapStart (source : Text) (tag : ByteRange) : Option Attribute → Nat
  | some previous => previous.span.stop.offset
  | none => tag.start + byteSize (((slice? source tag.start tag.stop).getD []).take 1)

/-- The blanks in front of an attribute are the longest run of blanks there is between an offset and
    the attribute. -/
structure Attribute.LongestBlanks (source : Text) (gap : Nat) (attr : Attribute) : Prop where
  begins : isBoundary source attr.leadingBlanks.start.offset = true
  ends : isBoundary source attr.leadingBlanks.stop.offset = true
  reaches : attr.leadingBlanks.stop = attr.span.start
  within : gap ≤ attr.leadingBlanks.start.offset
  blank : ∃ run, slice? source attr.leadingBlanks.start.offset attr.leadingBlanks.stop.offset =
    some run ∧ ∀ char ∈ run, isBlank char = true
  longest : ∀ start run, gap ≤ start → start < attr.leadingBlanks.start.offset →
    slice? source start attr.span.start.offset = some run → ∃ char ∈ run, isBlank char = false

/-- The offset one byte behind a cut is a boundary when the next character takes one byte. -/
theorem Text.isBoundary_succ_iff {front back : Text} {char : Char} :
    isBoundary (front ++ char :: back) (byteSize front + 1) = true ↔ char.utf8Size = 1 := by
  constructor
  · intro boundary
    obtain ⟨upper, lower, whole, size⟩ := isBoundary_iff.mp boundary
    obtain ⟨middle, rfl, rest⟩ := exists_between whole (by omega)
    rw [byteSize_append] at size
    cases middle with
    | nil => simp at size
    | cons first others =>
        obtain ⟨rfl, -⟩ := List.cons.inj rest
        have positive := Char.utf8Size_pos char
        rw [byteSize_cons] at size
        omega
  · intro narrow
    exact isBoundary_iff.mpr ⟨front ++ [char], back, by simp, by simp [narrow]⟩

/-- Nothing is sliced from an offset that is no boundary. -/
theorem Text.slice?_eq_none {text : Text} {start stop : Nat} (cuts : isBoundary text start = false) :
    slice? text start stop = none := by
  rw [isBoundary, Option.isSome_eq_false_iff, Option.isNone_iff_eq_none] at cuts
  simp [slice?, cuts]

/-- The blanks in front of the attribute of a piece are as many as its gap ends in. Of a longer run of
    blanks at the end of the gap the trimming would leave nothing. -/
theorem Piece.longestBlanks_attributeAt (front rest : Text) (piece : Piece) :
    (piece.attributeAt front).LongestBlanks (front ++ piece.gap ++ rest) (byteSize front) := by
  obtain ⟨blanks, trimmed, blank⟩ := exists_trimEnd piece.gap
  have whole : front ++ piece.gap ++ rest = front ++ trimEnd piece.gap ++ blanks ++ rest := by
    rw [List.append_assoc front (trimEnd piece.gap), ← trimmed]
  have reached : byteSize (front ++ trimEnd piece.gap) + byteSize blanks =
      byteSize (front ++ piece.gap) := by
    rw [← byteSize_append, List.append_assoc, ← trimmed]
  refine ⟨?begins, isBoundary_append (front ++ piece.gap) rest, rfl, ?within,
    ⟨blanks, slice?_eq_some.mpr ⟨_, rest, whole, rfl, reached⟩, blank⟩, ?longest⟩
  case begins =>
    rw [whole, List.append_assoc]
    exact isBoundary_append (front ++ trimEnd piece.gap) (blanks ++ rest)
  case within =>
    change byteSize front ≤ byteSize (front ++ trimEnd piece.gap)
    rw [byteSize_append]
    omega
  case longest =>
    intro start run above below sliced
    obtain ⟨upper, lower, cut, rfl, stops⟩ := slice?_eq_some.mp sliced
    change byteSize upper < byteSize (front ++ trimEnd piece.gap) at below
    have stopped : byteSize (front ++ piece.gap) = byteSize (upper ++ run) :=
      (stops.symm.trans (byteSize_append upper run).symm)
    obtain ⟨skipped, rfl, ending⟩ := exists_between (cut_unique cut stopped).1 above
    by_contra none_shown
    have allBlank : ∀ char ∈ run, isBlank char = true := by
      intro char member
      by_contra shown
      exact none_shown ⟨char, member, eq_false_of_ne_true shown⟩
    obtain ⟨others, left, -⟩ := exists_trimEnd skipped
    have shorter := congrArg byteSize left
    rw [ending, trimEnd_append_blanks allBlank] at below
    simp only [byteSize_append] at below shorter
    omega

/-- The blanks in front of the attributes behind another one are the longest runs there are. -/
theorem Piece.longestBlanks_attributesAt {source front back : Text} {previous : Attribute}
    {pieces : List Piece} (stops : previous.span.stop = .behind front)
    (whole : source = front ++ flat pieces ++ back) :
    (previous :: attributesAt front pieces).IsChain fun previous next =>
      next.LongestBlanks source previous.span.stop.offset := by
  induction pieces generalizing front previous with
  | nil => exact List.isChain_singleton previous
  | cons piece others inductionHypothesis =>
      have cut : source = front ++ piece.gap ++ (piece.body ++ flat others ++ back) := by
        simpa using whole
      refine List.isChain_cons_cons.mpr ⟨?_, inductionHypothesis rfl (by simpa using whole)⟩
      rw [stops, cut]
      exact piece.longestBlanks_attributeAt front _

namespace Layout

variable {layout : Layout} {first : Piece} {others : List Piece}

/-- The tag starts with the first character of the gap in front of its first attribute. -/
theorem exists_opening (drawn : layout.pieces = first :: others) :
    ∃ char gap rest, first.gap = char :: gap ∧
      layout.source = layout.front ++ char :: (gap ++ rest) ∧
      gapStart layout.source layout.ranges.tag none = byteSize layout.front + char.utf8Size := by
  obtain ⟨char, gap, opens⟩ := List.exists_cons_of_ne_nil (layout.opened first (by simp [drawn]))
  have tag : layout.inner = char :: (gap ++ first.body ++ Piece.flat others ++ layout.tail) := by
    simp [inner, drawn, opens]
  refine ⟨char, gap, first.body ++ Piece.flat others ++ layout.tail ++ layout.back, opens, ?_, ?_⟩
  · simp [source, tag]
  · have sliced : slice? layout.source layout.ranges.tag.start layout.ranges.tag.stop =
        some layout.inner := slice?_append layout.front layout.inner layout.back
    rw [gapStart, sliced, Option.getD_some, tag, List.take_succ_cons, List.take_zero, byteSize_cons,
      byteSize_nil]
    rfl

/-- Behind a first character of one byte the gap of the first attribute is cut rightly, and its
    blanks are found as those of any other attribute. -/
theorem longestBlanks_of_narrow (drawn : layout.pieces = first :: others)
    (boundary : isBoundary layout.source (layout.ranges.tag.start + 1) = true) :
    (layout.firstAttribute first).LongestBlanks layout.source
      (gapStart layout.source layout.ranges.tag none) := by
  obtain ⟨char, gap, rest, opens, whole, gapStarts⟩ := exists_opening drawn
  have narrow : char.utf8Size = 1 := by
    rw [whole] at boundary
    exact isBoundary_succ_iff.mp boundary
  let piece : Piece := { first with gap := gap }
  have opening : byteSize (layout.front ++ [char]) = byteSize layout.front + 1 := by simp [narrow]
  have front : layout.front ++ first.gap = layout.front ++ [char] ++ gap := by simp [opens]
  have cut : layout.source = layout.front ++ [char] ++ gap ++ rest := by simp [whole]
  have found : layout.firstAttribute first = piece.attributeAt (layout.front ++ [char]) := by
    rw [firstAttribute, front, ← opening, cut, Element.span_blanks]
    simp [Piece.attributeAt, front, piece]
  rw [found, gapStarts, narrow, ← opening, cut]
  exact piece.longestBlanks_attributeAt (layout.front ++ [char]) rest

/-- Behind a wider first character all from its second byte on is taken for blank. -/
theorem leadingBlanks_of_wide (drawn : layout.pieces = first :: others)
    (cuts : isBoundary layout.source (layout.ranges.tag.start + 1) = false) :
    (layout.firstAttribute first).leadingBlanks.range =
      ⟨layout.ranges.tag.start + 1, (layout.firstAttribute first).span.start.offset⟩ := by
  obtain ⟨char, gap, rest, opens, whole, -⟩ := exists_opening drawn
  have positive := Char.utf8Size_pos char
  have uncut : Element.blanksStart layout.source (byteSize layout.front + 1)
      (byteSize (layout.front ++ first.gap)) = byteSize layout.front + 1 := by
    have refused := @slice?_eq_none _ _ (byteSize (layout.front ++ first.gap)) cuts
    rw [Element.blanksStart, show slice? _ (byteSize layout.front + 1) _ = none from refused]
    rfl
  have size : byteSize layout.source =
      byteSize layout.front + (char.utf8Size + (byteSize gap + byteSize rest)) := by
    rw [whole, byteSize_append, byteSize_cons, byteSize_append]
  have gapSize : byteSize first.gap = char.utf8Size + byteSize gap := by rw [opens, byteSize_cons]
  have starts : min (byteSize layout.front + 1) (byteSize layout.source) =
      byteSize layout.front + 1 := by omega
  have stops : min (byteSize (layout.front ++ first.gap)) (byteSize layout.source) =
      byteSize (layout.front ++ first.gap) := by
    rw [byteSize_append]
    omega
  rw [firstAttribute, uncut]
  exact congrArg₂ ByteRange.mk starts stops

end Layout

/-- The blanks in front of an attribute are the longest run of blanks there, behind the attribute
    before it or behind the first character of the tag, unless the attribute is the first and the
    tag starts with a character of more than one byte. Then they are not: they start inside that
    character, one byte behind its start, whatever stands between it and the attribute. -/
theorem leading_blanks_longest_iff {source : Text} {ranges : TagRanges} {element : Element}
    (accepted : ranges.Accepted source element) {earlier later : List Attribute} {attr : Attribute}
    (listed : element.attributes = earlier ++ attr :: later) :
    (attr.LongestBlanks source (gapStart source ranges.tag earlier.getLast?) ↔
      (earlier = [] → isBoundary source (ranges.tag.start + 1) = true)) ∧
    (earlier = [] → isBoundary source (ranges.tag.start + 1) = false →
      attr.leadingBlanks.range = ⟨ranges.tag.start + 1, attr.span.start.offset⟩) := by
  obtain ⟨layout, rfl, rfl, rfl⟩ := Layout.accepted_iff.mp accepted
  cases drawn : layout.pieces with
  | nil => simp [Layout.element, drawn] at listed
  | cons first others =>
      have attributes : layout.element.attributes = layout.firstAttribute first ::
          Piece.attributesAt (layout.front ++ first.gap ++ first.body) others := by
        simp [Layout.element, drawn]
      rw [attributes] at listed
      rcases List.eq_nil_or_concat' earlier with rfl | ⟨before, previous, rfl⟩
      · obtain ⟨rfl, -⟩ := List.cons.inj listed
        refine ⟨⟨fun longest _ => ?_, fun boundary => ?_⟩, fun _ => ?_⟩
        · by_contra cuts
          have range := Layout.leadingBlanks_of_wide drawn (eq_false_of_ne_true cuts)
          have starts : (layout.firstAttribute first).leadingBlanks.start.offset =
              layout.ranges.tag.start + 1 := congrArg ByteRange.start range
          exact cuts (starts ▸ longest.begins)
        · exact Layout.longestBlanks_of_narrow drawn (boundary rfl)
        · exact Layout.leadingBlanks_of_wide drawn
      · have whole : layout.source = layout.front ++ first.gap ++ first.body ++
            Piece.flat others ++ (layout.tail ++ layout.back) := by
          simp [Layout.source, Layout.inner, drawn]
        have chain := @Piece.longestBlanks_attributesAt _ _ _ (layout.firstAttribute first) _ rfl
          whole
        rw [listed, List.isChain_append] at chain
        have longest := chain.2.2 previous (by simp) attr (by simp)
        simp [gapStart, longest]

/-- The blanks in front of two attributes, the first of which stands behind blanks of one and of two
    bytes, and the second behind a comment. -/
theorem leading_blanks_longest_iff_behind_comment :
    ∃ element first second,
      TagRanges.Accepted "<A \u00A0b/**/c>".toList ⟨⟨0, 12⟩, [⟨5, 6⟩, ⟨10, 11⟩]⟩ element ∧
      element.attributes = [first, second] ∧
      first.LongestBlanks "<A \u00A0b/**/c>".toList 1 ∧
      second.LongestBlanks "<A \u00A0b/**/c>".toList 6 := by
  have accepted : ∃ element first second,
      TagRanges.Accepted "<A \u00A0b/**/c>".toList ⟨⟨0, 12⟩, [⟨5, 6⟩, ⟨10, 11⟩]⟩ element ∧
      element.attributes = [first, second] ∧ first.span.stop.offset = 6 :=
    ⟨_, _, _, rfl, rfl, rfl⟩
  obtain ⟨element, first, second, built, listed, stops⟩ := accepted
  refine ⟨element, first, second, built, listed, ?_, ?_⟩
  · exact (@leading_blanks_longest_iff _ _ _ built [] [second] first listed).1.mpr fun _ => by decide
  · have longest := (@leading_blanks_longest_iff _ _ _ built [first] [] second listed).1.mpr nofun
    rw [List.getLast?_singleton, gapStart, stops] at longest
    exact longest

/-- A tag that starts with a no-break space: what is taken for the blanks in front of the attribute
    starts inside that character and has the opening bracket and the name of the tag in it, while
    the one blank there is stands directly in front of the attribute. -/
theorem leading_blanks_cut_character :
    ∃ element attr,
      TagRanges.Accepted "\u00A0<A b/>".toList ⟨⟨0, 8⟩, [⟨5, 6⟩]⟩ element ∧
      element.attributes = [attr] ∧ attr.leadingBlanks.range = ⟨1, 5⟩ ∧
      isBoundary "\u00A0<A b/>".toList 1 = false ∧
      ¬ attr.LongestBlanks "\u00A0<A b/>".toList
        (gapStart "\u00A0<A b/>".toList ⟨0, 8⟩ none) ∧
      slice? "\u00A0<A b/>".toList 2 5 = some "<A ".toList := by
  have accepted : ∃ element attr,
      TagRanges.Accepted "\u00A0<A b/>".toList ⟨⟨0, 8⟩, [⟨5, 6⟩]⟩ element ∧
      element.attributes = [attr] ∧ attr.leadingBlanks.range = ⟨1, 5⟩ := ⟨_, _, rfl, rfl, rfl⟩
  obtain ⟨element, attr, built, listed, range⟩ := accepted
  have inside : isBoundary "\u00A0<A b/>".toList 1 = false := by decide
  have starts : attr.leadingBlanks.start.offset = 1 := congrArg ByteRange.start range
  refine ⟨element, attr, built, listed, range, inside, fun longest => ?_, by decide⟩
  have begins := longest.begins
  rw [starts, inside] at begins
  contradiction

end TagWrap
