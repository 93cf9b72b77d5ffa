import TagWrap.Element
import TagWrap.Proofs.Cut

/-!
# Places in a text

The position of a cut is read off the front of the cut alone: it is as far as the front has
bytes, below as many lines as the front has line feeds, and as far to the right as the last
line of the front has characters. `position_append` says that the line index finds just that,
and then statements about lines are statements about line feeds in pieces of text.
-/
namespace TagWrap

open Text

/-- The position behind a text that stands at the start of a source. -/
def Position.behind (front : Text) : Position :=
  ⟨byteSize front, front.count '\n', (Element.lastLine front).length⟩

/-- The last line of a text has no line feed and stands at the start of the text or directly
    behind a line feed. -/
theorem Element.exists_lastLine (text : Text) :
    ∃ head, text = head ++ lastLine text ∧ '\n' ∉ lastLine text ∧
      (head = [] ∨ ∃ lines, head = lines ++ ['\n']) := by
  refine ⟨(text.reverse.dropWhile (· != '\n')).reverse, ?_, ?_, ?_⟩
  · rw [lastLine, ← List.reverse_append, List.takeWhile_append_dropWhile, List.reverse_reverse]
  · intro member
    rw [lastLine, List.mem_reverse] at member
    have other := List.all_eq_true.mp List.all_takeWhile _ member
    simp at other
  · cases dropped : text.reverse.dropWhile (· != '\n') with
    | nil => exact Or.inl rfl
    | cons char others =>
        have feed : char = '\n' := by
          have stopped := List.head_dropWhile_not (· != '\n') (l := text.reverse)
            (by simp [dropped])
          simpa [dropped] using stopped
        exact Or.inr ⟨others.reverse, by simp [feed]⟩

/-- A text without a line feed continues the last line of what stands before it. -/
theorem Element.lastLine_append {front back : Text} (lone : '\n' ∉ back) :
    lastLine (front ++ back) = lastLine front ++ back := by
  have passed : ∀ char ∈ back.reverse, (char != '\n') = true := by
    intro char member
    rw [bne_iff_ne]
    rintro rfl
    exact lone (List.mem_reverse.mp member)
  rw [lastLine, List.reverse_append, List.takeWhile_append_of_pos passed, List.reverse_append,
    List.reverse_reverse]
  rfl

/-- A text without a line feed is the last line behind a line feed. -/
theorem Element.lastLine_of_broken {lines line : Text} (lone : '\n' ∉ line) :
    lastLine (lines ++ '\n' :: line) = line := by
  have opened : lastLine (lines ++ ['\n']) = [] := by simp [lastLine]
  rw [← List.singleton_append, ← List.append_assoc, lastLine_append lone, opened, List.nil_append]

/-- Where a line starts nothing stands in front on that line. -/
theorem Element.lastLine_eq_nil {head : Text}
    (begins : head = [] ∨ ∃ lines, head = lines ++ ['\n']) : lastLine head = [] := by
  rcases begins with rfl | ⟨lines, rfl⟩
  · rfl
  · exact lastLine_of_broken List.not_mem_nil

/-- A place in a source has no more lines or characters in front than the source has bytes. -/
theorem Position.behind_le (front back : Text) :
    (Position.behind front).line ≤ byteSize (front ++ back) ∧
      (Position.behind front).column ≤ byteSize (front ++ back) := by
  have sized := length_le_byteSize front
  have feeds : front.count '\n' ≤ front.length := List.count_le_length
  obtain ⟨head, drawn, -, -⟩ := Element.exists_lastLine front
  have last := congrArg List.length drawn
  rw [List.length_append] at last
  rw [byteSize_append]
  constructor
  · change front.count '\n' ≤ _
    omega
  · change (Element.lastLine front).length ≤ _
    omega

namespace LineIndex

/-- The line starts of a text are those of a front and then those of the rest. -/
theorem lineStartsAfter_append (offset : Nat) (front back : Text) :
    lineStartsAfter offset (front ++ back) =
      lineStartsAfter offset front ++ lineStartsAfter (offset + byteSize front) back := by
  induction front generalizing offset with
  | nil => simp [lineStartsAfter]
  | cons char rest inductionHypothesis =>
      by_cases feed : char = '\n' <;>
        simp [lineStartsAfter, feed, inductionHypothesis, Nat.add_assoc]

/-- A text has as many line starts behind its own start as line feeds. -/
theorem length_lineStartsAfter (offset : Nat) (text : Text) :
    (lineStartsAfter offset text).length = text.count '\n' := by
  induction text generalizing offset with
  | nil => simp [lineStartsAfter]
  | cons char rest inductionHypothesis =>
      by_cases feed : char = '\n' <;> simp [lineStartsAfter, feed, inductionHypothesis]

/-- A text has one more line than line feeds. -/
theorem lineCount_ofText (text : Text) :
    (ofText text).lineCount = text.count '\n' + 1 := by
  change (lineStartsAfter 0 text).length + 1 = _
  rw [length_lineStartsAfter]

/-- The line starts of a text lie behind its own start and not beyond its end, since a line
    feed takes bytes. -/
theorem lineStartsAfter_bounds {offset start : Nat} {text : Text}
    (member : start ∈ lineStartsAfter offset text) :
    offset < start ∧ start ≤ offset + byteSize text := by
  induction text generalizing offset with
  | nil => simp [lineStartsAfter] at member
  | cons char rest inductionHypothesis =>
      have positive := Char.utf8Size_pos char
      have later : start ∈ lineStartsAfter (offset + char.utf8Size) rest →
          offset < start ∧ start ≤ offset + byteSize (char :: rest) := by
        intro found
        have bounded := inductionHypothesis found
        rw [byteSize_cons]
        omega
      simp only [lineStartsAfter] at member
      split at member
      · rcases List.mem_cons.mp member with rfl | found
        · rw [byteSize_cons]
          omega
        · exact later found
      · exact later member

/-- The line starts that are not beyond a cut are those of its front. -/
theorem takeWhile_lineStarts (front back : Text) :
    (ofText (front ++ back)).lineStarts.takeWhile (· ≤ byteSize front) =
      0 :: lineStartsAfter 0 front := by
  have reached : ∀ start ∈ lineStartsAfter 0 front, decide (start ≤ byteSize front) = true := by
    intro start member
    simpa using (lineStartsAfter_bounds member).2
  have beyond :
      (lineStartsAfter (0 + byteSize front) back).takeWhile (· ≤ byteSize front) = [] := by
    cases starts : lineStartsAfter (0 + byteSize front) back with
    | nil => rfl
    | cons start others =>
        have bounded : 0 + byteSize front < start :=
          (lineStartsAfter_bounds (starts ▸ List.mem_cons_self)).1
        exact List.takeWhile_cons_of_neg (by simp only [decide_eq_true_eq]; omega)
  rw [ofText, List.takeWhile_cons_of_pos (by simp), lineStartsAfter_append,
    List.takeWhile_append_of_pos reached, beyond, List.append_nil]

/-- The last line start of a text is where its last line starts. -/
theorem getLastD_lineStarts {head last : Text} (lone : '\n' ∉ last)
    (begins : head = [] ∨ ∃ lines, head = lines ++ ['\n']) :
    (0 :: lineStartsAfter 0 (head ++ last)).getLastD 0 = byteSize head := by
  have none_later : lineStartsAfter (0 + byteSize head) last = [] :=
    List.length_eq_zero_iff.mp (by rw [length_lineStartsAfter, List.count_eq_zero.mpr lone])
  rw [lineStartsAfter_append, none_later, List.append_nil]
  rcases begins with rfl | ⟨lines, rfl⟩
  · rfl
  · rw [lineStartsAfter_append, byteSize_append]
    simp [lineStartsAfter, List.getLastD_eq_getLast?, List.getLast?_cons]

/-- The index finds the position of a cut, and it is the one read off the front. -/
theorem position_append (front back : Text) :
    (ofText (front ++ back)).position (byteSize front) = .behind front := by
  obtain ⟨head, whole, lone, begins⟩ := Element.exists_lastLine front
  have lineStart : (0 :: lineStartsAfter 0 front).getLastD 0 = byteSize head := by
    rw [whole]
    exact getLastD_lineStarts lone begins
  have column : slice? (front ++ back) (byteSize head) (byteSize front) =
      some (Element.lastLine front) := by
    refine slice?_eq_some.mpr ⟨head, back, by rw [← whole], rfl, ?_⟩
    rw [← byteSize_append, ← whole]
  have clamped : min (byteSize front) (byteSize (front ++ back)) = byteSize front := by
    rw [byteSize_append]
    omega
  have source : (ofText (front ++ back)).source = front ++ back := rfl
  simp only [position, source, clamped, takeWhile_lineStarts, lineStart, column,
    List.length_cons, length_lineStartsAfter, Position.behind, Nat.add_sub_cancel]

/-- The span of a piece of a source. -/
theorem span_append (front inner back : Text) :
    (ofText (front ++ inner ++ back)).span ⟨byteSize front, byteSize (front ++ inner)⟩ =
      ⟨.behind front, .behind (front ++ inner)⟩ := by
  simp only [span, position_append, Span.mk.injEq, and_true]
  rw [List.append_assoc, position_append]

end LineIndex

namespace Position

/-- One place is read before another: it stands on an earlier line, or further to the left on the
    same line. -/
def ReadBefore (first second : Position) : Prop :=
  first.line < second.line ∨ first.line = second.line ∧ first.column < second.column

theorem ReadBefore.irrefl (position : Position) : ¬ position.ReadBefore position := by
  rintro (above | ⟨-, left⟩)
  · exact Nat.lt_irrefl _ above
  · exact Nat.lt_irrefl _ left

/-- Of two places only one is read before the other. -/
theorem ReadBefore.asymm {first second : Position} (before : first.ReadBefore second) :
    ¬ second.ReadBefore first := by
  rintro (above | ⟨line, left⟩)
  · rcases before with above' | ⟨line', -⟩
    · omega
    · omega
  · rcases before with above' | ⟨-, left'⟩
    · omega
    · omega

/-- What stands behind more text is read later: on a later line if there is a line feed in the
    text, and further to the right on the same line if there is none. -/
theorem readBefore_append (front : Text) {middle : Text} (filled : middle ≠ []) :
    (behind front).ReadBefore (behind (front ++ middle)) := by
  by_cases feed : '\n' ∈ middle
  · have lines := List.count_pos_iff.mpr feed
    refine Or.inl ?_
    change front.count '\n' < (front ++ middle).count '\n'
    rw [List.count_append]
    omega
  · have wide := List.length_pos_iff.mpr filled
    refine Or.inr ⟨?_, ?_⟩
    · change front.count '\n' = (front ++ middle).count '\n'
      rw [List.count_append, List.count_eq_zero.mpr feed, Nat.add_zero]
    · change (Element.lastLine front).length < (Element.lastLine (front ++ middle)).length
      rw [Element.lastLine_append feed, List.length_append]
      omega

/-- Positions of one source are read in the order of their offsets. -/
theorem readBefore_behind_iff {front back front' back' : Text}
    (whole : front ++ back = front' ++ back') :
    (behind front).ReadBefore (behind front') ↔ byteSize front < byteSize front' := by
  constructor
  · intro before
    apply Nat.lt_of_not_le
    intro reached
    obtain ⟨middle, rfl, -⟩ := exists_between whole.symm reached
    by_cases none_between : middle = []
    · subst none_between
      rw [List.append_nil] at before
      exact ReadBefore.irrefl _ before
    · exact before.asymm (readBefore_append front' none_between)
  · intro below
    obtain ⟨middle, rfl, -⟩ := exists_between whole (Nat.le_of_lt below)
    apply readBefore_append
    rintro rfl
    rw [List.append_nil] at below
    exact Nat.lt_irrefl _ below

end Position

end TagWrap
