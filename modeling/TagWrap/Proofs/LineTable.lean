import Mathlib.Data.List.TakeWhile
import TagWrap.Proofs.Place

/-!
# The table of line starts

The line index of a source keeps the offsets at which lines start and looks an offset up among them.
The table is strictly increasing, and it holds the start of the source and the places behind its line
feeds, nothing else. So the line starts that an offset has reached stand in front of those that it
has not, and their number is all that a search in the table can find.

From that `line_index_exact` has what the index answers: an offset between two characters has the
line and the column that are counted off the text in front of it, and positions are read in the
order of their offsets.
-/
namespace TagWrap

open Text

/-- What is counted off the text in front of a place: its bytes, its line feeds, and the characters
    behind the last line feed or behind the start of the text. -/
structure Position.Counts (front : Text) (position : Position) : Prop where
  offset : position.offset = byteSize front
  line : position.line = front.count '\n'
  column : ∃ lines last, front = lines ++ last ∧ (lines = [] ∨ ∃ text, lines = text ++ ['\n']) ∧
    '\n' ∉ last ∧ position.column = last.length

namespace LineIndex

/-- An offset is in the table when it lies directly behind a line feed. The induction is on the
    text, of which the offset `base` is the start. -/
theorem mem_lineStartsAfter_iff {base start : Nat} {text : Text} :
    start ∈ lineStartsAfter base text ↔
      ∃ front back, text = front ++ '\n' :: back ∧ base + byteSize (front ++ ['\n']) = start := by
  constructor
  · intro member
    induction text generalizing base with
    | nil => simp [lineStartsAfter] at member
    | cons char rest inductionHypothesis =>
        have later : start ∈ lineStartsAfter (base + char.utf8Size) rest →
            ∃ front back, char :: rest = front ++ '\n' :: back ∧
              base + byteSize (front ++ ['\n']) = start := by
          intro found
          obtain ⟨front, back, rfl, reached⟩ := inductionHypothesis found
          exact ⟨char :: front, back, rfl, by rw [List.cons_append, byteSize_cons]; omega⟩
        simp only [lineStartsAfter] at member
        split at member
        next feed =>
          rcases List.mem_cons.mp member with rfl | found
          · exact ⟨[], rest, by simp [feed], by simp [feed]⟩
          · exact later found
        next => exact later member
  · rintro ⟨front, back, rfl, rfl⟩
    rw [lineStartsAfter_append, byteSize_append]
    simp [lineStartsAfter, Nat.add_assoc]

/-- The line starts of a text are strictly increasing, since a line feed takes bytes. -/
theorem lineStartsAfter_increasing (base : Nat) (text : Text) :
    (lineStartsAfter base text).Pairwise (· < ·) := by
  induction text generalizing base with
  | nil => exact .nil
  | cons char rest inductionHypothesis =>
      rw [lineStartsAfter]
      split
      · exact .cons (fun start member => (lineStartsAfter_bounds member).1) (inductionHypothesis _)
      · exact inductionHypothesis _

/-- The table of a source has its start and the places behind its line feeds. -/
theorem mem_lineStarts_iff {source : Text} {start : Nat} :
    start ∈ (ofText source).lineStarts ↔ start = 0 ∨
      ∃ front back, source = front ++ '\n' :: back ∧ byteSize (front ++ ['\n']) = start := by
  have behind_feed := @mem_lineStartsAfter_iff 0 start source
  simp only [Nat.zero_add] at behind_feed
  rw [← behind_feed]
  exact List.mem_cons

/-- The table of a source is strictly increasing. -/
theorem lineStarts_increasing (source : Text) :
    (ofText source).lineStarts.Pairwise (· < ·) :=
  .cons (fun _ member => (lineStartsAfter_bounds member).1) (lineStartsAfter_increasing 0 source)

/-- No line starts behind the end of the source. -/
theorem lineStart_le {source : Text} {start : Nat} (listed : start ∈ (ofText source).lineStarts) :
    start ≤ byteSize source := by
  rcases List.mem_cons.mp listed with rfl | later
  · exact Nat.zero_le _
  · have bounded := (lineStartsAfter_bounds later).2
    omega

/-- An increasing table is cut at an offset into what the offset has reached and what it has not. -/
theorem beyond_of_increasing {starts : List Nat} (increasing : starts.Pairwise (· < ·))
    (offset : Nat) : ∀ start ∈ starts.dropWhile (· ≤ offset), offset < start := by
  intro start member
  cases beyond : starts.dropWhile (· ≤ offset) with
  | nil => simp [beyond] at member
  | cons first others =>
      have reached : offset < first := by
        have stopped := List.head_dropWhile_not (fun start => decide (start ≤ offset)) (l := starts)
          (by simp [beyond])
        simpa [beyond] using stopped
      rw [beyond] at member
      rcases List.mem_cons.mp member with rfl | later
      · exact reached
      · have sorted : (first :: others).Pairwise (· < ·) :=
          beyond ▸ increasing.sublist (List.dropWhile_sublist _)
        exact Nat.lt_trans reached (List.rel_of_pairwise_cons sorted later)

/-- The line of an offset is the number of line starts that it has reached, not counting the first.
    The others stand behind them in the table, so any search for the first start beyond the offset
    finds this number. -/
theorem line_is_partition_point (source : Text) (offset : Nat) :
    ∃ reached beyond, (ofText source).lineStarts = reached ++ beyond ∧
      (∀ start ∈ reached, start ≤ offset) ∧ (∀ start ∈ beyond, offset < start) ∧
      ((ofText source).position offset).line + 1 = reached.length := by
  let starts := (ofText source).lineStarts
  -- An offset past the end has reached the same line starts as the end.
  have clamped : starts.takeWhile (· ≤ min offset (byteSize source)) =
      starts.takeWhile (· ≤ offset) := by
    rcases Nat.le_total offset (byteSize source) with inside | past
    · rw [Nat.min_eq_left inside]
    · have all (bound : Nat) (far : byteSize source ≤ bound) :
          starts.takeWhile (· ≤ bound) = starts := by
        apply List.takeWhile_eq_self_iff.mpr
        intro start listed
        have within := lineStart_le listed
        simp only [decide_eq_true_eq]
        omega
      rw [Nat.min_eq_right past, all _ (Nat.le_refl _), all _ past]
  refine ⟨starts.takeWhile (· ≤ offset), starts.dropWhile (· ≤ offset), ?cut, ?reached, ?beyond,
    ?counted⟩
  case cut => exact List.takeWhile_append_dropWhile.symm
  case reached =>
    intro start member
    simpa using List.all_eq_true.mp List.all_takeWhile start member
  case beyond => exact beyond_of_increasing (lineStarts_increasing source) offset
  case counted =>
    have first : starts.takeWhile (· ≤ offset) =
        0 :: (lineStartsAfter 0 source).takeWhile (· ≤ offset) :=
      List.takeWhile_cons_of_pos (by simp)
    change (starts.takeWhile (· ≤ min offset (byteSize source))).length - 1 + 1 = _
    rw [clamped, first]
    rfl

/-- The position behind a text is counted off the text. -/
theorem counts_behind (front : Text) : (Position.behind front).Counts front := by
  obtain ⟨lines, whole, lone, begins⟩ := Element.exists_lastLine front
  exact ⟨rfl, rfl, lines, _, whole, begins, lone, rfl⟩

/-- The position of a boundary is counted off what stands in front of the boundary. -/
theorem exists_counts {source : Text} {offset : Nat} (boundary : isBoundary source offset = true) :
    ∃ front back, source = front ++ back ∧ byteSize front = offset ∧
      ((ofText source).position offset).Counts front := by
  obtain ⟨front, back, rfl, rfl⟩ := isBoundary_iff.mp boundary
  refine ⟨front, back, rfl, rfl, ?_⟩
  rw [position_append]
  exact counts_behind front

/-- One boundary is below another exactly when its position is read before that of the other. -/
theorem lt_iff_readBefore {source : Text} {low high : Nat}
    (lowBoundary : isBoundary source low = true) (highBoundary : isBoundary source high = true) :
    low < high ↔ ((ofText source).position low).ReadBefore ((ofText source).position high) := by
  obtain ⟨front, back, whole, rfl⟩ := isBoundary_iff.mp lowBoundary
  obtain ⟨front', back', whole', rfl⟩ := isBoundary_iff.mp highBoundary
  have below : (ofText source).position (byteSize front) = .behind front := by
    rw [whole, position_append]
  have above : (ofText source).position (byteSize front') = .behind front' := by
    rw [whole', position_append]
  rw [below, above, Position.readBefore_behind_iff (whole.symm.trans whole')]

/-- Two boundaries with one line and column are the same, since neither is read before the other. -/
theorem eq_of_same_place {source : Text} {low high : Nat}
    (lowBoundary : isBoundary source low = true) (highBoundary : isBoundary source high = true)
    (sameLine : ((ofText source).position low).line = ((ofText source).position high).line)
    (sameColumn : ((ofText source).position low).column =
      ((ofText source).position high).column) : low = high := by
  have notBelow : ¬ low < high := by
    rw [lt_iff_readBefore lowBoundary highBoundary, Position.ReadBefore]
    omega
  have notAbove : ¬ high < low := by
    rw [lt_iff_readBefore highBoundary lowBoundary, Position.ReadBefore]
    omega
  omega

end LineIndex

/-- The line index of a source is exact, and it keeps the order.

    There is one line more than line feeds. The table of line starts is strictly increasing and has
    the start of the source and the places behind its line feeds. For every offset the line starts
    that the offset has reached come before the others, and the line of the offset is the last of
    them. At a boundary the position has that offset, as many lines before it as line feeds stand in
    front of it, and as many columns as characters stand behind the last of these. One boundary is
    below another exactly when its line and column are read first, and two with one line and column
    are the same. An offset past the end has the position of the end. -/
theorem line_index_exact (source : Text) :
    let index := LineIndex.ofText source
    index.lineCount = source.count '\n' + 1 ∧
    index.lineStarts.Pairwise (· < ·) ∧
    (∀ start, start ∈ index.lineStarts ↔ start = 0 ∨ ∃ front back,
      source = front ++ '\n' :: back ∧ byteSize (front ++ ['\n']) = start) ∧
    (∀ offset, ∃ reached beyond, index.lineStarts = reached ++ beyond ∧
      (∀ start ∈ reached, start ≤ offset) ∧ (∀ start ∈ beyond, offset < start) ∧
      (index.position offset).line + 1 = reached.length) ∧
    (∀ offset, isBoundary source offset = true → ∃ front back,
      source = front ++ back ∧ byteSize front = offset ∧ (index.position offset).Counts front) ∧
    (∀ low high, isBoundary source low = true → isBoundary source high = true →
      (low < high ↔ (index.position low).ReadBefore (index.position high)) ∧
      ((index.position low).line = (index.position high).line →
        (index.position low).column = (index.position high).column → low = high)) ∧
    ∀ offset, byteSize source ≤ offset →
      index.position offset = index.position (byteSize source) := by
  intro index
  refine ⟨LineIndex.lineCount_ofText source, LineIndex.lineStarts_increasing source,
    fun _ => LineIndex.mem_lineStarts_iff, LineIndex.line_is_partition_point source,
    fun _ => LineIndex.exists_counts, ?order, ?past⟩
  case order =>
    intro low high lowBoundary highBoundary
    exact ⟨LineIndex.lt_iff_readBefore lowBoundary highBoundary,
      LineIndex.eq_of_same_place lowBoundary highBoundary⟩
  case past =>
    intro offset past
    simp only [LineIndex.position, index, LineIndex.ofText, Nat.min_eq_right past, Nat.min_self]

/-- Positions around a line feed between characters of more than one byte, and past the end. -/
theorem line_index_exact_wide :
    let index := LineIndex.ofText "é\n日x".toList
    (index.position 2).ReadBefore (index.position 3) ∧
      (∃ front back, "é\n日x".toList = front ++ back ∧ byteSize front = 6 ∧
        (index.position 6).Counts front) ∧
      index.position 99 = index.position 7 := by
  intro index
  obtain ⟨-, -, -, -, counts, order, past⟩ := line_index_exact "é\n日x".toList
  exact ⟨(order 2 3 (by decide) (by decide)).1.mp (by decide), counts 6 (by decide),
    past 99 (by decide)⟩

end TagWrap
