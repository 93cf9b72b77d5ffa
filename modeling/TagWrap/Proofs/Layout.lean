import Mathlib.Data.List.Forall2
import TagWrap.Dump
import TagWrap.Proofs.Place
import TagWrap.Proofs.Steps
import TagWrap.Proofs.Trim

/-!
# Layouts of tags

Byte ranges are accepted when they can be drawn on the source, and then a tag is a row of
pieces: what stands before an attribute, the attribute, what stands before the next one, and so
on to a tail without attributes. A layout is such a drawing. It writes down a source, the ranges
that a parser would report for it and the element that they resolve to.

`accepted_iff` says that building an element is the inverse of this: ranges are accepted
with an element exactly when they are the ranges of a layout of the source and the element is
that of the layout. Properties of accepted elements are therefore proved of layouts, by
recursion on their pieces.
-/
namespace TagWrap

open Text

/-- An attribute as it stands in its tag. -/
structure Piece where
  /-- What stands between the token before the attribute and the attribute. -/
  gap : Text
  /-- The source text of the attribute. -/
  body : Text
  name : AttributeName
  named : AttributeName.ofSource? body = some name

namespace Piece

/-- The source text of a piece. -/
def text (piece : Piece) : Text := piece.gap ++ piece.body

/-- The source text of pieces in a row. -/
def flat (pieces : List Piece) : Text := pieces.flatMap text

@[simp] theorem flat_nil : flat [] = [] := rfl

@[simp] theorem flat_cons (piece : Piece) (pieces : List Piece) :
    flat (piece :: pieces) = piece.gap ++ piece.body ++ flat pieces := rfl

/-- The byte ranges of the attributes of pieces, the first of which starts at an offset. -/
def ranges (offset : Nat) : List Piece → List ByteRange
  | [] => []
  | piece :: pieces =>
      let start := offset + byteSize piece.gap
      let stop := start + byteSize piece.body
      ⟨start, stop⟩ :: ranges stop pieces

/-- The attribute of a piece that stands behind a text. -/
def attributeAt (front : Text) (piece : Piece) : Attribute where
  name := piece.name
  span := ⟨.behind (front ++ piece.gap), .behind (front ++ piece.gap ++ piece.body)⟩
  leadingBlanks := ⟨.behind (front ++ trimEnd piece.gap), .behind (front ++ piece.gap)⟩

/-- The attributes of pieces that stand behind a text. -/
def attributesAt (front : Text) : List Piece → List Attribute
  | [] => []
  | piece :: pieces =>
      piece.attributeAt front :: attributesAt (front ++ piece.gap ++ piece.body) pieces

/-- An attribute is not empty, since nothing has no name. -/
theorem body_ne_nil (piece : Piece) : piece.body ≠ [] := by
  intro empty
  have unnamed : AttributeName.ofSource? [] = none := by decide
  have named := piece.named
  rw [empty, unnamed] at named
  contradiction

/-- An attribute takes bytes. -/
theorem byteSize_body_pos (piece : Piece) : 0 < byteSize piece.body :=
  Nat.pos_of_ne_zero fun empty => piece.body_ne_nil ((byteSize_eq_zero _).mp empty)

end Piece

namespace Element

/-- A range passes the check when it is that of a piece of the source. -/
theorem checkRange_eq_ok_iff {source : Text} {range : ByteRange} :
    checkRange source range = .ok () ↔
      ∃ front inner back, source = front ++ inner ++ back ∧
        range = ⟨byteSize front, byteSize (front ++ inner)⟩ := by
  obtain ⟨start, stop⟩ := range
  simp only [checkRange, refuse_eq_ok]
  constructor
  · rintro ⟨forward, inside, begins, ends, -⟩
    obtain ⟨front, rest, rfl, rfl⟩ := isBoundary_iff.mp (by simpa using begins)
    obtain ⟨upper, back, whole, rfl⟩ := isBoundary_iff.mp (by simpa using ends)
    obtain ⟨inner, rfl, rfl⟩ := exists_between whole (by simpa using forward)
    exact ⟨front, inner, back, by simp, rfl⟩
  · rintro ⟨front, inner, back, rfl, range⟩
    cases range
    have begins : isBoundary (front ++ inner ++ back) (byteSize front) = true := by
      rw [List.append_assoc]
      exact isBoundary_append front (inner ++ back)
    have ends : isBoundary (front ++ inner ++ back) (byteSize (front ++ inner)) = true :=
      isBoundary_append (front ++ inner) back
    refine ⟨?_, ?_, ?_, ?_, trivial⟩
    · rw [byteSize_append]
      omega
    · rw [byteSize_append _ back]
      omega
    · rw [begins]
      decide
    · rw [ends]
      decide

/-- An attribute is resolved when its range is that of a piece of the source inside the tag and
    not before the bound, and when the piece has a name. -/
theorem resolveAttribute_eq_ok_iff {source : Text} {tag range : ByteRange} {bound : Nat}
    {attr : Attribute} :
    resolveAttribute (.ofText source) tag bound range = .ok attr ↔
      ∃ front body back name, source = front ++ body ++ back ∧
        range = ⟨byteSize front, byteSize (front ++ body)⟩ ∧ tag.start < byteSize front ∧
        byteSize (front ++ body) ≤ tag.stop ∧ bound ≤ byteSize front ∧
        AttributeName.ofSource? body = some name ∧
        attr = ⟨name, ⟨.behind front, .behind (front ++ body)⟩, (LineIndex.ofText source).span
          ⟨blanksStart source bound (byteSize front), byteSize front⟩⟩ := by
  have source_eq : (LineIndex.ofText source).source = source := rfl
  simp only [resolveAttribute, source_eq, then_eq_ok, throw_then, refuse_eq_ok]
  constructor
  · rintro ⟨passed, filled, inside, above, resolved⟩
    obtain ⟨front, body, back, rfl, rfl⟩ := checkRange_eq_ok_iff.mp passed
    rw [slice?_append, Option.getD_some] at resolved
    cases named : AttributeName.ofSource? body with
    | none =>
        rw [named] at resolved
        contradiction
    | some name =>
        rw [named] at resolved
        dsimp only at inside above
        refine ⟨front, body, back, name, rfl, rfl, by omega, by omega, by omega, named, ?_⟩
        rw [← pure_eq_ok.mp resolved, LineIndex.span_append]
  · rintro ⟨front, body, back, name, rfl, rfl, below, within, above, named, rfl⟩
    have passed : checkRange (front ++ body ++ back) ⟨byteSize front, byteSize (front ++ body)⟩ =
        .ok () := checkRange_eq_ok_iff.mpr ⟨front, body, back, rfl, rfl⟩
    have wide : 0 < byteSize body := Piece.byteSize_body_pos ⟨[], body, name, named⟩
    refine ⟨passed, ?_, ?_, Nat.not_lt.mpr above, ?_⟩
    · dsimp only
      rw [byteSize_append]
      omega
    · dsimp only
      omega
    · rw [slice?_append, Option.getD_some, named]
      exact pure_eq_ok.mpr (by rw [LineIndex.span_append])

/-- Attributes are resolved one by one, each with the end of the one before it as its bound. -/
theorem attributesFrom_cons_eq_ok_iff {index : LineIndex} {tag range : ByteRange} {bound : Nat}
    {ranges : List ByteRange} {attributes : List Attribute} :
    attributesFrom index tag bound (range :: ranges) = .ok attributes ↔
      ∃ first others, resolveAttribute index tag bound range = .ok first ∧
        attributesFrom index tag range.stop ranges = .ok others ∧ attributes = first :: others := by
  simp only [attributesFrom, bind_eq_ok, pure_eq_ok]
  constructor
  · rintro ⟨first, head, others, rest, rfl⟩
    exact ⟨first, others, head, rest, rfl⟩
  · rintro ⟨first, others, head, rest, rfl⟩
    exact ⟨first, head, others, rest, rfl⟩

/-- Blanks are looked for in front of the attribute only. -/
theorem blanksStart_le {source : Text} {bound start : Nat} (ordered : bound ≤ start) :
    blanksStart source bound start ≤ start := by
  rw [blanksStart]
  cases sliced : slice? source bound start with
  | none => exact ordered
  | some gap =>
      obtain ⟨_, _, _, _, size⟩ := slice?_eq_some.mp sliced
      obtain ⟨blanks, trimmed, _⟩ := exists_trimEnd gap
      rw [trimmed, byteSize_append] at size
      rw [Option.getD_some]
      omega

/-- The blanks in front of a piece are what the trimming of its gap takes off. -/
theorem span_blanks (front gap back : Text) :
    (LineIndex.ofText (front ++ gap ++ back)).span
        ⟨blanksStart (front ++ gap ++ back) (byteSize front) (byteSize (front ++ gap)),
          byteSize (front ++ gap)⟩ =
      ⟨.behind (front ++ trimEnd gap), .behind (front ++ gap)⟩ := by
  obtain ⟨blanks, trimmed, _⟩ := exists_trimEnd gap
  have stop : front ++ gap = front ++ trimEnd gap ++ blanks := by
    rw [List.append_assoc, ← trimmed]
  rw [blanksStart, slice?_append, Option.getD_some, ← byteSize_append, stop]
  exact LineIndex.span_append _ _ _

/-- Accepted ranges behind a front are those of pieces that stand there, and they resolve to the
    attributes of these pieces. The induction is on the ranges: the first of them cuts a gap and
    a body off the text, and the others lie behind it. -/
theorem exists_pieces {front back : Text} {tag : ByteRange} {ranges : List ByteRange}
    {attributes : List Attribute} (behind : tag.start < byteSize front)
    (within : byteSize front ≤ tag.stop)
    (resolved : attributesFrom (.ofText (front ++ back)) tag (byteSize front) ranges =
      .ok attributes) :
    ∃ pieces rest, back = Piece.flat pieces ++ rest ∧
      ranges = Piece.ranges (byteSize front) pieces ∧
      attributes = Piece.attributesAt front pieces ∧
      byteSize (front ++ Piece.flat pieces) ≤ tag.stop := by
  induction ranges generalizing front back attributes with
  | nil =>
      cases resolved
      exact ⟨[], back, rfl, rfl, rfl, by simpa using within⟩
  | cons range ranges inductionHypothesis =>
      obtain ⟨first, others, head, remaining, rfl⟩ := attributesFrom_cons_eq_ok_iff.mp resolved
      obtain ⟨upper, body, rest, name, whole, rfl, _, inside, above, named, rfl⟩ :=
        resolveAttribute_eq_ok_iff.mp head
      rw [List.append_assoc upper] at whole
      obtain ⟨gap, rfl, rfl⟩ := exists_between whole above
      have regrouped : front ++ (gap ++ (body ++ rest)) = front ++ gap ++ body ++ rest := by simp
      rw [regrouped] at remaining
      have further : tag.start < byteSize (front ++ gap ++ body) := by
        rw [byteSize_append _ body, byteSize_append]
        omega
      obtain ⟨pieces, last, rfl, rfl, rfl, bounded⟩ :=
        inductionHypothesis further inside remaining
      refine ⟨⟨gap, body, name, named⟩ :: pieces, last, by simp, ?_, ?_, ?_⟩
      · simp [Piece.ranges, Nat.add_assoc]
      · simp only [Piece.attributesAt, Piece.attributeAt]
        rw [regrouped, List.append_assoc _ body, span_blanks]
      · simpa using bounded

/-- The ranges of pieces are accepted and resolve to the attributes of the pieces. -/
theorem attributesFrom_pieces {front rest : Text} {tag : ByteRange} {pieces : List Piece}
    (behind : tag.start < byteSize front)
    (within : byteSize (front ++ Piece.flat pieces) ≤ tag.stop) :
    attributesFrom (.ofText (front ++ Piece.flat pieces ++ rest)) tag (byteSize front)
      (Piece.ranges (byteSize front) pieces) = .ok (Piece.attributesAt front pieces) := by
  induction pieces generalizing front with
  | nil => rfl
  | cons piece pieces inductionHypothesis =>
      have regrouped : front ++ Piece.flat (piece :: pieces) ++ rest =
          front ++ piece.gap ++ piece.body ++ (Piece.flat pieces ++ rest) := by simp
      have start : byteSize front + byteSize piece.gap = byteSize (front ++ piece.gap) := by simp
      have stop : byteSize (front ++ piece.gap) + byteSize piece.body =
          byteSize (front ++ piece.gap ++ piece.body) := (byteSize_append _ _).symm
      simp only [Piece.flat_cons, byteSize_append] at within
      rw [Piece.ranges, regrouped, start, stop]
      refine attributesFrom_cons_eq_ok_iff.mpr ⟨piece.attributeAt front, _, ?_, ?_, rfl⟩
      · refine resolveAttribute_eq_ok_iff.mpr ⟨front ++ piece.gap, piece.body,
          Piece.flat pieces ++ rest, piece.name, rfl, rfl, ?_, ?_, ?_, piece.named, ?_⟩
        · rw [byteSize_append]; omega
        · simp only [byteSize_append]; omega
        · rw [byteSize_append]; omega
        · rw [List.append_assoc _ piece.body, span_blanks]
          rfl
      · rw [← List.append_assoc]
        refine inductionHypothesis ?_ ?_
        · simp only [byteSize_append]; omega
        · simp only [byteSize_append]; omega

/-- A tag is resolved when its range passes the check and its attributes are resolved, the first
    of them behind the first byte of the tag. -/
theorem ofRanges_eq_ok_iff {source : Text} {tag : ByteRange} {ranges : List ByteRange}
    {element : Element} :
    ofRanges (.ofText source) tag ranges = .ok element ↔ checkRange source tag = .ok () ∧
      ∃ attributes, attributesFrom (.ofText source) tag (tag.start + 1) ranges = .ok attributes ∧
        element = ⟨(LineIndex.ofText source).span tag, attributes, indentOf source ranges⟩ := by
  have source_eq : (LineIndex.ofText source).source = source := rfl
  simp only [ofRanges, source_eq]
  rw [then_eq_ok]
  simp only [bind_eq_ok, pure_eq_ok, @eq_comm _ element]

end Element

/-- The ranges of a tag are accepted on a source, and the element is what they resolve to. -/
def TagRanges.Accepted (source : Text) (ranges : TagRanges) (element : Element) : Prop :=
  Element.ofRanges (.ofText source) ranges.tag ranges.attributes = .ok element

/-- Elements that tags are accepted with are accepted one by one. -/
theorem TagRanges.exists_accepted {source : Text} {tags : List TagRanges} {elements : List Element}
    (accepted : List.Forall₂ (TagRanges.Accepted source) tags elements) :
    ∀ element ∈ elements, ∃ ranges : TagRanges, ranges.Accepted source element := by
  induction accepted with
  | nil => simp
  | cons head _ inductionHypothesis =>
      intro element member
      rcases List.mem_cons.mp member with rfl | later
      · exact ⟨_, head⟩
      · exact inductionHypothesis element later

/-- The elements of tags are those that the tags are accepted with, one by one. -/
theorem Dump.Loaded.elementsFrom_eq_ok_iff {loaded : Loaded} {index : Nat}
    {tags : List TagRanges} {elements : List Element} :
    loaded.elementsFrom (.ofText loaded.source) index tags = .ok elements ↔
      List.Forall₂ (TagRanges.Accepted loaded.source) tags elements := by
  induction tags generalizing index elements with
  | nil => simp [elementsFrom, eq_comm]
  | cons tag tags inductionHypothesis =>
      simp only [elementsFrom, bind_eq_ok, mapError_eq_ok, pure_eq_ok, inductionHypothesis]
      constructor
      · rintro ⟨element, first, others, rest, rfl⟩
        exact .cons first rest
      · rintro (_ | ⟨first, rest⟩)
        exact ⟨_, first, _, rest, rfl⟩

/-- The elements of a dump that can be used are those that its tags are accepted with. -/
theorem Dump.Loaded.accepted_of_elements {loaded : Loaded} {elements : List Element}
    (built : loaded.elements = .ok elements) :
    List.Forall₂ (TagRanges.Accepted loaded.source) loaded.tags elements := by
  simp only [Dump.Loaded.elements, bind_eq_ok] at built
  obtain ⟨found, resolved, _, _, same⟩ := built
  obtain rfl := Except.ok.inj same
  exact elementsFrom_eq_ok_iff.mp resolved

/-- A tag drawn on its source. Something of the tag stands before the first attribute, its
    opening bracket at least. -/
structure Layout where
  /-- The source before the tag. -/
  front : Text
  pieces : List Piece
  /-- The end of the tag behind its last attribute. -/
  tail : Text
  /-- The source behind the tag. -/
  back : Text
  opened : ∀ first ∈ pieces.head?, first.gap ≠ []

namespace Layout

/-- The source text of the tag. -/
def inner (layout : Layout) : Text := Piece.flat layout.pieces ++ layout.tail

/-- The source that the tag is drawn on. -/
def source (layout : Layout) : Text := layout.front ++ layout.inner ++ layout.back

/-- The byte ranges of the tag and of its attributes. -/
def ranges (layout : Layout) : TagRanges where
  tag := ⟨byteSize layout.front, byteSize (layout.front ++ layout.inner)⟩
  attributes := Piece.ranges (byteSize layout.front) layout.pieces

/-- A tag does not run backwards. -/
theorem tag_runs (layout : Layout) : layout.ranges.tag.start ≤ layout.ranges.tag.stop := by
  change byteSize layout.front ≤ byteSize (layout.front ++ layout.inner)
  rw [byteSize_append]
  omega

/-- The first attribute of a tag. The search for the blanks in front of it starts after the
    first byte of the tag, which need not be a boundary. -/
def firstAttribute (layout : Layout) (first : Piece) : Attribute where
  name := first.name
  span := (first.attributeAt layout.front).span
  leadingBlanks := (LineIndex.ofText layout.source).span
    ⟨Element.blanksStart layout.source (byteSize layout.front + 1)
      (byteSize (layout.front ++ first.gap)), byteSize (layout.front ++ first.gap)⟩

/-- The element that the ranges resolve to. -/
def element (layout : Layout) : Element where
  span := ⟨.behind layout.front, .behind (layout.front ++ layout.inner)⟩
  attributes := match layout.pieces with
    | [] => []
    | first :: others => layout.firstAttribute first ::
        Piece.attributesAt (layout.front ++ first.gap ++ first.body) others
  indent := match layout.pieces with
    | [] => []
    | first :: _ => Element.indentUnder (Element.lastLine (layout.front ++ first.gap))

/-- The indent of a tag is made of tabs and spaces. -/
theorem mem_indent {layout : Layout} {char : Char} (member : char ∈ layout.element.indent) :
    char = '\t' ∨ char = ' ' := by
  cases drawn : layout.pieces with
  | nil => simp [element, drawn] at member
  | cons first others =>
      simp only [element, drawn] at member
      obtain ⟨under, _, rfl⟩ := List.mem_map.mp member
      by_cases tab : under = '\t'
      · exact Or.inl (if_pos tab)
      · exact Or.inr (if_neg tab)

/-- The first attribute of a layout is resolved, since something of the tag stands before it. -/
theorem resolve_first {front tail back : Text} {first : Piece} {others : List Piece}
    (opened : ∀ piece ∈ (first :: others).head?, piece.gap ≠ []) :
    let layout : Layout := ⟨front, first :: others, tail, back, opened⟩
    Element.resolveAttribute (.ofText layout.source) layout.ranges.tag
        (layout.ranges.tag.start + 1)
        ⟨byteSize (front ++ first.gap), byteSize (front ++ first.gap ++ first.body)⟩ =
      .ok (layout.firstAttribute first) := by
  intro layout
  have filled : 0 < byteSize first.gap :=
    Nat.pos_of_ne_zero fun none => opened first rfl ((byteSize_eq_zero _).mp none)
  refine Element.resolveAttribute_eq_ok_iff.mpr ⟨front ++ first.gap, first.body,
    Piece.flat others ++ (tail ++ back), first.name, ?_, rfl, ?_, ?_, ?_, first.named, rfl⟩
  · simp [layout, source, inner]
  · simp only [layout, ranges, byteSize_append]; omega
  · simp only [layout, ranges, inner, byteSize_append, Piece.flat_cons]; omega
  · simp only [layout, ranges, byteSize_append]; omega

/-- The attributes of a layout are resolved. -/
theorem resolve_attributes (layout : Layout) :
    Element.attributesFrom (.ofText layout.source) layout.ranges.tag
        (layout.ranges.tag.start + 1) layout.ranges.attributes = .ok layout.element.attributes := by
  obtain ⟨front, pieces, tail, back, opened⟩ := layout
  cases pieces with
  | nil => rfl
  | cons first others =>
      have whole : source ⟨front, first :: others, tail, back, opened⟩ =
          front ++ first.gap ++ first.body ++ Piece.flat others ++ (tail ++ back) := by
        simp [source, inner]
      have start : byteSize front + byteSize first.gap = byteSize (front ++ first.gap) :=
        (byteSize_append _ _).symm
      have stop : byteSize (front ++ first.gap) + byteSize first.body =
          byteSize (front ++ first.gap ++ first.body) := (byteSize_append _ _).symm
      have remaining := @Element.attributesFrom_pieces (front ++ first.gap ++ first.body)
        (tail ++ back) (ranges ⟨front, first :: others, tail, back, opened⟩).tag others
        (by have := first.byteSize_body_pos; simp only [ranges, byteSize_append]; omega)
        (by simp only [ranges, inner, byteSize_append, Piece.flat_cons]; omega)
      rw [← whole] at remaining
      simp only [ranges, Piece.ranges, start, stop]
      exact Element.attributesFrom_cons_eq_ok_iff.mpr
        ⟨_, _, resolve_first opened, remaining, rfl⟩

/-- The indent of a layout is that of the line of its first attribute. -/
theorem indentOf_ranges (layout : Layout) :
    Element.indentOf layout.source layout.ranges.attributes = layout.element.indent := by
  obtain ⟨front, pieces, tail, back, opened⟩ := layout
  cases pieces with
  | nil => rfl
  | cons first others =>
      have cut : source ⟨front, first :: others, tail, back, opened⟩ =
          front ++ first.gap ++ (first.body ++ Piece.flat others ++ tail ++ back) := by
        simp [source, inner]
      simp only [ranges, Piece.ranges, Element.indentOf, element]
      rw [cut, ← byteSize_append, before_append]

/-- The ranges of a layout are accepted and resolve to its element. -/
theorem accepted (layout : Layout) : layout.ranges.Accepted layout.source layout.element := by
  refine Element.ofRanges_eq_ok_iff.mpr ⟨?_, _, layout.resolve_attributes, ?_⟩
  · exact Element.checkRange_eq_ok_iff.mpr ⟨_, _, _, rfl, rfl⟩
  · rw [indentOf_ranges]
    simp only [element, ranges, source, LineIndex.span_append]

/-- Accepted ranges can be drawn on the source. The check of the tag cuts it out of the source,
    the first attribute cuts a gap off its start, and the other attributes are those of pieces
    behind the first one. -/
theorem exists_layout {source : Text} {ranges : TagRanges} {element : Element}
    (accepted : ranges.Accepted source element) :
    ∃ layout : Layout, layout.source = source ∧ layout.ranges = ranges := by
  obtain ⟨tag, attributes⟩ := ranges
  obtain ⟨passed, placed, resolved, -⟩ := Element.ofRanges_eq_ok_iff.mp accepted
  obtain ⟨front, inner, back, rfl, rfl⟩ := Element.checkRange_eq_ok_iff.mp passed
  cases attributes with
  | nil =>
      refine ⟨⟨front, [], inner, back, by simp⟩, ?_, ?_⟩
      · simp [Layout.source, Layout.inner]
      · simp [Layout.ranges, Layout.inner, Piece.ranges]
  | cons range others =>
      obtain ⟨first, later, head, remaining, rfl⟩ :=
        Element.attributesFrom_cons_eq_ok_iff.mp resolved
      obtain ⟨upper, body, rest, name, whole, rfl, below, within, _, named, rfl⟩ :=
        Element.resolveAttribute_eq_ok_iff.mp head
      have cut : front ++ (inner ++ back) = upper ++ (body ++ rest) := by simpa using whole
      obtain ⟨gap, rfl, split⟩ := exists_between cut (Nat.le_of_lt below)
      rw [whole] at remaining
      obtain ⟨pieces, last, rfl, rfl, -, bounded⟩ := Element.exists_pieces
        (show byteSize front < _ by simp only [byteSize_append] at below ⊢; omega)
        within remaining
      have end_cut : (gap ++ body ++ Piece.flat pieces) ++ last = inner ++ back := by
        simpa using split.symm
      obtain ⟨tail, rfl, rfl⟩ := exists_between end_cut
        (by simp only [byteSize_append] at bounded ⊢; omega)
      refine ⟨⟨front, ⟨gap, body, name, named⟩ :: pieces, tail, back, ?_⟩, ?_, ?_⟩
      · rintro _ ⟨⟩ rfl
        simp at below
      · simp [Layout.source, Layout.inner]
      · simp [Layout.ranges, Layout.inner, Piece.ranges, Nat.add_assoc]

/-- Ranges are accepted exactly when they are those of a layout of the source. The element that
    they resolve to is that of the layout. -/
theorem accepted_iff {source : Text} {ranges : TagRanges} {element : Element} :
    ranges.Accepted source element ↔
      ∃ layout : Layout, layout.source = source ∧ layout.ranges = ranges ∧
        layout.element = element := by
  constructor
  · intro accepted
    obtain ⟨layout, rfl, rfl⟩ := exists_layout accepted
    exact ⟨layout, rfl, rfl, Except.ok.inj (layout.accepted.symm.trans accepted)⟩
  · rintro ⟨layout, rfl, rfl, rfl⟩
    exact layout.accepted

/-- The tags of layouts of one source are accepted on it. -/
theorem forall₂_accepted {source : Text} {layouts : List Layout}
    (drawn : ∀ layout ∈ layouts, layout.source = source) :
    List.Forall₂ (TagRanges.Accepted source) (layouts.map ranges) (layouts.map element) := by
  refine List.forall₂_map_left_iff.mpr (List.forall₂_map_right_iff.mpr ?_)
  refine List.forall₂_same.mpr fun layout listed => ?_
  rw [← drawn layout listed]
  exact layout.accepted

/-- Accepted tags of one source are those of layouts of the source. -/
theorem exists_layouts {source : Text} {tags : List TagRanges} {elements : List Element}
    (accepted : List.Forall₂ (TagRanges.Accepted source) tags elements) :
    ∃ layouts : List Layout, (∀ layout ∈ layouts, layout.source = source) ∧
      tags = layouts.map ranges ∧ elements = layouts.map element := by
  induction accepted with
  | nil => exact ⟨[], by simp⟩
  | cons head _ inductionHypothesis =>
      obtain ⟨layout, drawn, rfl, rfl⟩ := accepted_iff.mp head
      obtain ⟨layouts, others, rfl, rfl⟩ := inductionHypothesis
      exact ⟨layout :: layouts, by simpa [drawn] using others, rfl, rfl⟩

end Layout

end TagWrap
