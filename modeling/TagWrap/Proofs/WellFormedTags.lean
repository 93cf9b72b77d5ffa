import TagWrap.Proofs.Layout

/-!
# Which tags are accepted

The ranges of a tag and of its attributes are checked one after the other, and the first check that
fails decides the error. What passes is said here without any order of checks: the tag is a piece of
the source, and each attribute is a named piece inside the tag, behind its first byte and not before
the end of the attribute in front of it.

`tags_accepted_exactly` says that a tag is accepted exactly when this holds, that each attribute is
then resolved from its own range, and that a refusal describes the tag if the tag is bad and
otherwise the first attribute that is. The bound that the loop carries starts behind the first byte
of the tag, where no attribute ends. It never refuses the first attribute, since an attribute that
starts before it has been refused as one outside the tag.
-/
namespace TagWrap

open Text

/-- A range is that of a piece of a source: it does not run backwards, it ends within the source,
    and it cuts no character. -/
structure ByteRange.IsPieceOf (source : Text) (range : ByteRange) : Prop where
  forward : range.start ≤ range.stop
  inside : range.stop ≤ byteSize source
  begins : isBoundary source range.start = true
  ends : isBoundary source range.stop = true

/-- The error for a range that is no piece of a source. Where the range breaks more than one
    condition, the first of them decides. -/
inductive ByteRange.Fault (source : Text) (range : ByteRange) : IngestError → Prop where
  | inverted (backwards : range.stop < range.start) :
      Fault source range (.invertedSpan range.start range.stop)
  | outOfBounds (forward : range.start ≤ range.stop) (beyond : byteSize source < range.stop) :
      Fault source range (.spanOutOfBounds range.start range.stop (byteSize source))
  | cutAtStart (forward : range.start ≤ range.stop) (inside : range.stop ≤ byteSize source)
      (cuts : isBoundary source range.start = false) :
      Fault source range (.notCharBoundary range.start)
  | cutAtStop (forward : range.start ≤ range.stop) (inside : range.stop ≤ byteSize source)
      (begins : isBoundary source range.start = true)
      (cuts : isBoundary source range.stop = false) :
      Fault source range (.notCharBoundary range.stop)

/-- A range can be that of an attribute of a tag, where `previous` is the attribute in front of
    it. -/
structure AttributeFits (source : Text) (tag : ByteRange) (previous : Option ByteRange)
    (range : ByteRange) : Prop where
  filled : range.start < range.stop
  begins : isBoundary source range.start = true
  ends : isBoundary source range.stop = true
  behind : tag.start < range.start
  within : range.stop ≤ tag.stop
  apart : ∀ before ∈ previous, before.stop ≤ range.start
  named : ∃ text name, slice? source range.start range.stop = some text ∧
    AttributeName.ofSource? text = some name

/-- The error for a range that cannot be that of an attribute. Where the range breaks more than one
    condition, the first of them decides. -/
inductive AttributeFault (source : Text) (tag : ByteRange) (previous : Option ByteRange)
    (range : ByteRange) : IngestError → Prop where
  | noPiece {error : IngestError} (fault : range.Fault source error) :
      AttributeFault source tag previous range error
  | empty (piece : range.IsPieceOf source) (empty : range.start = range.stop) :
      AttributeFault source tag previous range (.emptyAttribute range.start)
  | outside (piece : range.IsPieceOf source) (filled : range.start < range.stop)
      (beyond : range.start ≤ tag.start ∨ tag.stop < range.stop) :
      AttributeFault source tag previous range
        (.outsideElement range.start range.stop tag.start tag.stop)
  | outOfOrder {before : ByteRange} (piece : range.IsPieceOf source)
      (filled : range.start < range.stop) (behind : tag.start < range.start)
      (within : range.stop ≤ tag.stop) (follows : previous = some before)
      (overlaps : range.start < before.stop) :
      AttributeFault source tag previous range (.outOfOrder range.start before.stop)
  | malformed {text : Text} (piece : range.IsPieceOf source) (filled : range.start < range.stop)
      (behind : tag.start < range.start) (within : range.stop ≤ tag.stop)
      (apart : ∀ before ∈ previous, before.stop ≤ range.start)
      (reads : slice? source range.start range.stop = some text)
      (unnamed : AttributeName.ofSource? text = none) :
      AttributeFault source tag previous range (.malformed range.start text)

/-- Each range in a list can be that of an attribute behind the one before it in the list, and the
    first behind `previous`. -/
def AttributesFit (source : Text) (tag : ByteRange) (previous : Option ByteRange)
    (ranges : List ByteRange) : Prop :=
  ∀ earlier range later, ranges = earlier ++ range :: later →
    AttributeFits source tag (earlier.getLast?.or previous) range

/-- An attribute is what a range resolves to: its span is that of the range, and its name is read
    off the text of the range. -/
structure Resolves (source : Text) (range : ByteRange) (attr : Attribute) : Prop where
  span : attr.span = (LineIndex.ofText source).span range
  bounds : attr.span.range = range
  named : ∃ text, slice? source range.start range.stop = some text ∧
    AttributeName.ofSource? text = some attr.name

/-- The offset from which the loop looks for an attribute behind `previous`. -/
def boundBehind (tag : ByteRange) : Option ByteRange → Nat
  | none => tag.start + 1
  | some previous => previous.stop

/-- An attribute inside a tag does not start before the bound when it does not start before the end
    of the attribute in front of it. -/
theorem boundBehind_le_iff {tag range : ByteRange} {previous : Option ByteRange}
    (behind : tag.start < range.start) :
    boundBehind tag previous ≤ range.start ↔ ∀ before ∈ previous, before.stop ≤ range.start := by
  cases previous with
  | none => exact iff_of_true behind (by simp)
  | some before => simp [boundBehind]

namespace Element

variable {source : Text} {tag range : ByteRange} {ranges : List ByteRange}
  {previous : Option ByteRange} {error : IngestError}

/-- A range passes the check exactly when it is that of a piece of the source. -/
theorem checkRange_passes_iff : checkRange source range = .ok () ↔ range.IsPieceOf source := by
  simp only [checkRange, refuse_eq_ok, Nat.not_lt, Bool.not_eq_true', Bool.not_eq_false]
  constructor
  · rintro ⟨forward, inside, begins, ends, -⟩
    exact ⟨forward, inside, begins, ends⟩
  · rintro ⟨forward, inside, begins, ends⟩
    exact ⟨forward, inside, begins, ends, trivial⟩

/-- There is a text between the ends of a piece. -/
theorem exists_text (piece : range.IsPieceOf source) :
    ∃ text, slice? source range.start range.stop = some text := by
  have passed := checkRange_passes_iff.mpr piece
  obtain ⟨front, text, back, rfl, rfl⟩ := checkRange_eq_ok_iff.mp passed
  exact ⟨text, slice?_append front text back⟩

/-- The check of a range fails with the error for the range. -/
theorem checkRange_eq_error_iff :
    checkRange source range = .error error ↔ range.Fault source error := by
  simp only [checkRange, refuse_eq_error, Nat.not_lt, Bool.not_eq_true', Bool.not_eq_false]
  constructor
  · rintro (⟨backwards, rfl⟩ | ⟨forward, ⟨beyond, rfl⟩ | ⟨inside, ⟨cuts, rfl⟩ | ⟨begins, rest⟩⟩⟩)
    · exact .inverted backwards
    · exact .outOfBounds forward beyond
    · exact .cutAtStart forward inside cuts
    · rcases rest with ⟨cuts, rfl⟩ | ⟨-, impossible⟩
      · exact .cutAtStop forward inside begins cuts
      · contradiction
  · intro fault
    cases fault with
    | inverted backwards => exact Or.inl ⟨backwards, rfl⟩
    | outOfBounds forward beyond => exact Or.inr ⟨forward, Or.inl ⟨beyond, rfl⟩⟩
    | cutAtStart forward inside cuts =>
        exact Or.inr ⟨forward, Or.inr ⟨inside, Or.inl ⟨cuts, rfl⟩⟩⟩
    | cutAtStop forward inside begins cuts =>
        exact Or.inr ⟨forward, Or.inr ⟨inside, Or.inr ⟨begins, Or.inl ⟨cuts, rfl⟩⟩⟩⟩

/-- The resolution of an attribute fails with the error for its range. -/
theorem resolveAttribute_eq_error_iff :
    resolveAttribute (.ofText source) tag (boundBehind tag previous) range = .error error ↔
      AttributeFault source tag previous range error := by
  have source_eq : (LineIndex.ofText source).source = source := rfl
  simp only [resolveAttribute, source_eq, then_eq_error, throw_then, checkRange_eq_error_iff,
    checkRange_passes_iff]
  constructor
  · rintro (fault | ⟨piece, failed⟩)
    · exact .noPiece fault
    obtain ⟨text, reads⟩ := exists_text piece
    simp only [reads, Option.getD_some] at failed
    rcases refuse_eq_error.mp failed with ⟨empty, rfl⟩ | ⟨notEmpty, failed⟩
    · exact .empty piece empty
    have filled : range.start < range.stop := Nat.lt_of_le_of_ne piece.forward notEmpty
    rcases refuse_eq_error.mp failed with ⟨beyond, rfl⟩ | ⟨inside, failed⟩
    · exact .outside piece filled beyond
    obtain ⟨behind, within⟩ : tag.start < range.start ∧ range.stop ≤ tag.stop := by omega
    rcases refuse_eq_error.mp failed with ⟨overlaps, rfl⟩ | ⟨clear, failed⟩
    · cases previous with
      | none => exact absurd behind (Nat.not_lt.mpr (Nat.le_of_lt_succ overlaps))
      | some before => exact .outOfOrder piece filled behind within rfl overlaps
    have apart := (boundBehind_le_iff behind).mp (Nat.not_lt.mp clear)
    cases named : AttributeName.ofSource? text with
    | none =>
        rw [named] at failed
        obtain rfl := Except.error.inj failed
        exact .malformed piece filled behind within apart reads named
    | some name =>
        rw [named] at failed
        contradiction
  · intro fault
    cases fault with
    | noPiece fault => exact Or.inl fault
    | empty piece empty => exact Or.inr ⟨piece, if_pos empty⟩
    | outside piece filled beyond =>
        refine Or.inr ⟨piece, ?_⟩
        rw [if_neg (Nat.ne_of_lt filled), if_pos beyond]
    | outOfOrder piece filled behind within follows overlaps =>
        refine Or.inr ⟨piece, ?_⟩
        subst follows
        rw [if_neg (Nat.ne_of_lt filled), if_neg (by omega), boundBehind, if_pos overlaps]
    | malformed piece filled behind within apart reads unnamed =>
        have clear := Nat.not_lt.mpr ((boundBehind_le_iff behind).mpr apart)
        refine Or.inr ⟨piece, ?_⟩
        rw [if_neg (Nat.ne_of_lt filled), if_neg (by omega), if_neg clear, reads, Option.getD_some,
          unnamed]
        rfl

/-- An attribute is resolved exactly when its range can be that of an attribute behind the one
    before it. -/
theorem exists_resolveAttribute_iff :
    (∃ attr, resolveAttribute (.ofText source) tag (boundBehind tag previous) range = .ok attr) ↔
      AttributeFits source tag previous range := by
  constructor
  · rintro ⟨attr, resolved⟩
    obtain ⟨front, body, back, name, rfl, rfl, behind, within, above, named, -⟩ :=
      resolveAttribute_eq_ok_iff.mp resolved
    have filled : 0 < byteSize body := Piece.byteSize_body_pos ⟨[], body, name, named⟩
    refine ⟨?_, ?_, ?_, behind, within, (boundBehind_le_iff behind).mp above, body, name, ?_, named⟩
    · dsimp only
      rw [byteSize_append]
      omega
    · rw [List.append_assoc]
      exact isBoundary_append front (body ++ back)
    · exact isBoundary_append (front ++ body) back
    · exact slice?_append front body back
  · rintro ⟨-, -, -, behind, within, apart, text, name, reads, named⟩
    obtain ⟨front, back, rfl, begins, ends⟩ := slice?_eq_some.mp reads
    have whole : range = ⟨byteSize front, byteSize (front ++ text)⟩ := by
      rw [byteSize_append, begins, ends]
    subst whole
    exact ⟨_, resolveAttribute_eq_ok_iff.mpr ⟨front, text, back, name, rfl, rfl, behind, within,
      (boundBehind_le_iff behind).mpr apart, named, rfl⟩⟩

/-- What an attribute is resolved to is read off its own range. -/
theorem resolves_of_resolveAttribute {bound : Nat} {attr : Attribute}
    (resolved : resolveAttribute (.ofText source) tag bound range = .ok attr) :
    Resolves source range attr := by
  obtain ⟨front, body, back, name, rfl, rfl, -, -, -, named, rfl⟩ :=
    resolveAttribute_eq_ok_iff.mp resolved
  exact ⟨(LineIndex.span_append front body back).symm, rfl, body, slice?_append front body back,
    named⟩

end Element

/-- Behind the first of some ranges stands the last of the others, or the first if it is alone. -/
theorem getLast?_cons_or (range : ByteRange) (others : List ByteRange)
    (previous : Option ByteRange) :
    (range :: others).getLast?.or previous = others.getLast?.or (some range) := by
  simp [List.getLast?_cons]

/-- No range breaks a condition in an empty list. -/
theorem attributesFit_nil (source : Text) (tag : ByteRange) (previous : Option ByteRange) :
    AttributesFit source tag previous [] := by
  simp [AttributesFit]

/-- A range at the front of a list fits behind `previous`, and the others fit behind it. -/
theorem attributesFit_cons_iff {source : Text} {tag range : ByteRange} {previous : Option ByteRange}
    {ranges : List ByteRange} :
    AttributesFit source tag previous (range :: ranges) ↔
      AttributeFits source tag previous range ∧ AttributesFit source tag (some range) ranges := by
  constructor
  · intro fit
    refine ⟨fit [] range ranges (List.nil_append _), ?_⟩
    rintro earlier other later rfl
    rw [← getLast?_cons_or]
    exact fit (range :: earlier) other later (List.cons_append ..).symm
  · rintro ⟨first, others⟩ earlier other later whole
    cases earlier with
    | nil =>
        obtain ⟨rfl, -⟩ := List.cons.inj whole
        exact first
    | cons head earlier =>
        obtain ⟨rfl, rest⟩ := List.cons.inj whole
        rw [getLast?_cons_or]
        exact others earlier other later rest

namespace Element

variable {source : Text} {tag : ByteRange} {ranges : List ByteRange} {previous : Option ByteRange}
  {error : IngestError}

/-- Attributes are resolved exactly when their ranges fit one behind the other. -/
theorem exists_attributesFrom_iff :
    (∃ attributes, attributesFrom (.ofText source) tag (boundBehind tag previous) ranges =
      .ok attributes) ↔ AttributesFit source tag previous ranges := by
  induction ranges generalizing previous with
  | nil => exact iff_of_true ⟨[], rfl⟩ (attributesFit_nil source tag previous)
  | cons range ranges inductionHypothesis =>
      rw [attributesFit_cons_iff, ← exists_resolveAttribute_iff, ← inductionHypothesis]
      simp only [attributesFrom_cons_eq_ok_iff]
      constructor
      · rintro ⟨_, first, others, head, rest, rfl⟩
        exact ⟨⟨first, head⟩, others, rest⟩
      · rintro ⟨⟨first, head⟩, others, rest⟩
        exact ⟨_, first, others, head, rest, rfl⟩

/-- Attributes are resolved one by one, each from its own range. -/
theorem forall₂_resolves {bound : Nat} {attributes : List Attribute}
    (resolved : attributesFrom (.ofText source) tag bound ranges = .ok attributes) :
    List.Forall₂ (Resolves source) ranges attributes := by
  induction ranges generalizing bound attributes with
  | nil =>
      obtain rfl := Except.ok.inj resolved
      exact .nil
  | cons range ranges inductionHypothesis =>
      obtain ⟨first, others, head, rest, rfl⟩ := attributesFrom_cons_eq_ok_iff.mp resolved
      exact .cons (resolves_of_resolveAttribute head) (inductionHypothesis rest)

/-- The resolution of attributes fails at the first of them, or the first fits and the resolution of
    the others fails. -/
theorem attributesFrom_cons_eq_error_iff {range : ByteRange} :
    attributesFrom (.ofText source) tag (boundBehind tag previous) (range :: ranges) =
        .error error ↔
      AttributeFault source tag previous range error ∨ AttributeFits source tag previous range ∧
        attributesFrom (.ofText source) tag (boundBehind tag (some range)) ranges =
          .error error := by
  rw [← resolveAttribute_eq_error_iff, ← exists_resolveAttribute_iff, attributesFrom, bind_eq_error]
  apply or_congr_right
  constructor
  · rintro ⟨first, resolved, failed⟩
    rcases bind_eq_error.mp failed with rest | ⟨_, _, impossible⟩
    · exact ⟨⟨first, resolved⟩, rest⟩
    · contradiction
  · rintro ⟨⟨first, resolved⟩, rest⟩
    exact ⟨first, resolved, bind_eq_error.mpr (Or.inl rest)⟩

/-- The resolution of attributes fails with the error for the first range that does not fit. -/
theorem attributesFrom_eq_error_iff :
    attributesFrom (.ofText source) tag (boundBehind tag previous) ranges = .error error ↔
      ∃ earlier range later, ranges = earlier ++ range :: later ∧
        AttributesFit source tag previous earlier ∧
        AttributeFault source tag (earlier.getLast?.or previous) range error := by
  induction ranges generalizing previous with
  | nil => simp [attributesFrom]
  | cons head ranges inductionHypothesis =>
      rw [attributesFrom_cons_eq_error_iff, inductionHypothesis]
      constructor
      · rintro (fault | ⟨fits, earlier, range, later, rfl, others, fault⟩)
        · exact ⟨[], head, ranges, List.nil_append _, attributesFit_nil source tag previous, fault⟩
        · refine ⟨head :: earlier, range, later, List.cons_append .., ?_, ?_⟩
          · exact attributesFit_cons_iff.mpr ⟨fits, others⟩
          · rwa [getLast?_cons_or]
      · rintro ⟨earlier, range, later, whole, fit, fault⟩
        cases earlier with
        | nil =>
            obtain ⟨rfl, -⟩ := List.cons.inj whole
            exact Or.inl fault
        | cons first earlier =>
            obtain ⟨rfl, rest⟩ := List.cons.inj whole
            obtain ⟨fits, others⟩ := attributesFit_cons_iff.mp fit
            rw [getLast?_cons_or] at fault
            exact Or.inr ⟨fits, earlier, range, later, rest, others, fault⟩

end Element

/-- A tag is refused with the error for its own range, or its range is that of a piece and the
    resolution of the attributes fails. -/
theorem Element.ofRanges_eq_error_iff {source : Text} {tag : ByteRange} {ranges : List ByteRange}
    {error : IngestError} :
    ofRanges (.ofText source) tag ranges = .error error ↔
      tag.Fault source error ∨ tag.IsPieceOf source ∧
        attributesFrom (.ofText source) tag (boundBehind tag none) ranges = .error error := by
  have source_eq : (LineIndex.ofText source).source = source := rfl
  rw [ofRanges, then_eq_error, source_eq, checkRange_eq_error_iff, checkRange_passes_iff,
    bind_eq_error]
  apply or_congr_right
  apply and_congr_right
  intro _
  constructor
  · rintro (failed | ⟨_, _, impossible⟩)
    · exact failed
    · contradiction
  · exact Or.inl

/-- A range with an error is no piece of the source. -/
theorem ByteRange.Fault.not_isPieceOf {source : Text} {range : ByteRange} {error : IngestError}
    (fault : range.Fault source error) : ¬ range.IsPieceOf source := by
  rw [← Element.checkRange_passes_iff, Element.checkRange_eq_error_iff.mpr fault]
  exact nofun

/-- A range with an error cannot be that of an attribute. -/
theorem AttributeFault.not_fits {source : Text} {tag range : ByteRange}
    {previous : Option ByteRange} {error : IngestError} (fault : AttributeFault source tag previous range error) :
    ¬ AttributeFits source tag previous range := by
  rw [← Element.exists_resolveAttribute_iff, Element.resolveAttribute_eq_error_iff.mpr fault]
  exact nofun

/-- Tags are accepted exactly when they are well-formed.

    The ranges of a tag and of its attributes give an element exactly when the tag is a piece of the
    source and each attribute fits behind the one before it. The element then has one attribute for
    each range, in their order, and each is resolved from its own range. Otherwise the error is the
    one for the tag if that is no piece of the source, and if it is, the one for the first range
    that does not fit, where all ranges before it do. -/
theorem tags_accepted_exactly (source : Text) (tag : ByteRange) (ranges : List ByteRange) :
    let built := Element.ofRanges (.ofText source) tag ranges
    ((∃ element, built = .ok element) ↔
      tag.IsPieceOf source ∧ AttributesFit source tag none ranges) ∧
    (∀ element, built = .ok element →
      List.Forall₂ (Resolves source) ranges element.attributes) ∧
    ∀ error, built = .error error ↔
      ¬ tag.IsPieceOf source ∧ tag.Fault source error ∨
      tag.IsPieceOf source ∧ ∃ earlier range later, ranges = earlier ++ range :: later ∧
        AttributesFit source tag none earlier ∧
        ¬ AttributeFits source tag earlier.getLast? range ∧
        AttributeFault source tag earlier.getLast? range error := by
  intro built
  refine ⟨?accepted, ?resolved, ?refused⟩
  case accepted =>
    rw [← Element.exists_attributesFrom_iff, ← Element.checkRange_passes_iff]
    simp only [built, Element.ofRanges_eq_ok_iff]
    constructor
    · rintro ⟨_, passed, attributes, resolved, -⟩
      exact ⟨passed, attributes, resolved⟩
    · rintro ⟨passed, attributes, resolved⟩
      exact ⟨_, passed, attributes, resolved, rfl⟩
  case resolved =>
    intro element accepted
    obtain ⟨-, attributes, resolved, rfl⟩ := Element.ofRanges_eq_ok_iff.mp accepted
    exact Element.forall₂_resolves resolved
  case refused =>
    intro error
    have tagDiffers : ¬ tag.IsPieceOf source ∧ tag.Fault source error ↔ tag.Fault source error :=
      and_iff_right_of_imp ByteRange.Fault.not_isPieceOf
    have rangeDiffers (previous : Option ByteRange) (range : ByteRange) :
        ¬ AttributeFits source tag previous range ∧ AttributeFault source tag previous range error ↔
          AttributeFault source tag previous range error :=
      and_iff_right_of_imp AttributeFault.not_fits
    simp only [built, Element.ofRanges_eq_error_iff, Element.attributesFrom_eq_error_iff,
      Option.or_none, tagDiffers, rangeDiffers]

/-- The second attribute overlaps the first one, and it is the one that is named although the third
    has no name. -/
theorem tags_accepted_until_overlap :
    let source := "<A b=\x7b1\x7d =c/>".toList
    Element.ofRanges (.ofText source) ⟨0, 13⟩ [⟨3, 8⟩, ⟨6, 8⟩, ⟨9, 11⟩] =
        .error (.outOfOrder 6 8) ∧
      ¬ AttributesFit source ⟨0, 13⟩ none [⟨3, 8⟩, ⟨6, 8⟩, ⟨9, 11⟩] := by
  intro source
  have refused : Element.ofRanges (.ofText source) ⟨0, 13⟩ [⟨3, 8⟩, ⟨6, 8⟩, ⟨9, 11⟩] =
      .error (.outOfOrder 6 8) := by decide +kernel
  have piece : ByteRange.IsPieceOf source ⟨0, 13⟩ := ⟨by decide, by decide, by decide, by decide⟩
  refine ⟨refused, fun fit => ?_⟩
  obtain ⟨element, built⟩ := (tags_accepted_exactly source _ _).1.mpr ⟨piece, fit⟩
  rw [refused] at built
  contradiction

end TagWrap
