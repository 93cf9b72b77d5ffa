import TagWrap.Proofs.ReadableDiff

/-!
# Unified diffs as patches

A diff is a faithful patch when a reader of unified diffs can read it, when the counts in its
headers are those of its lines, and when its hunks make the new text out of the old one.

That holds whenever no line of the texts ends in a carriage return by itself, the name of the file
has no line feed, and the first and the last piece of the script name their place on both sides
(`unified_faithful`). The hunks show all changes, so what is taken over between them is the same on
both sides.

A reader takes a line that ends in a carriage return by itself for one with the line behind it
(`unified_not_faithful_lone_return`). The ends of the script name their place unless one of them
only deletes or only inserts lines (`Diff.located_of_two_sided`): such a piece may have changed
places with another one, and then it carries an index of before.
-/
namespace TagWrap

open Diff Patch

/-! ## The lines of hunks -/

namespace Diff

/-- The lines of a piece are lines of either text. -/
theorem mem_lines {piece : Piece} {old new : List Text} {line : Mark × Text}
    (member : line ∈ piece.lines old new) : line.2 ∈ old ∨ line.2 ∈ new := by
  rw [Piece.lines] at member
  split at member
  · obtain ⟨text, inside, rfl⟩ := List.mem_map.mp member
    exact .inl (List.mem_of_mem_drop (List.mem_of_mem_take inside))
  · rcases List.mem_append.mp member with deleted | inserted
    · obtain ⟨text, inside, rfl⟩ := List.mem_map.mp deleted
      exact .inl (List.mem_of_mem_drop (List.mem_of_mem_take inside))
    · obtain ⟨text, inside, rfl⟩ := List.mem_map.mp inserted
      exact .inr (List.mem_of_mem_drop (List.mem_of_mem_take inside))

/-- Lines are found at the index where they start. If there are none, any index will do. -/
theorem take_drop_of_placed {front lines back : List Text} {start : Nat}
    (placed : lines ≠ [] → start = front.length) :
    ((front ++ (lines ++ back)).drop start).take lines.length = lines := by
  cases lines with
  | nil => rfl
  | cons line lines =>
      rw [placed (List.cons_ne_nil line lines), List.drop_left, List.take_left]

end Diff

namespace Patch

theorem oldSide_append (first second : List (Mark × Text)) :
    oldSide (first ++ second) = oldSide first ++ oldSide second := by
  simp [oldSide]

theorem newSide_append (first second : List (Mark × Text)) :
    newSide (first ++ second) = newSide first ++ newSide second := by
  simp [newSide]

/-- Marked lines on either side, where some lines stand on both and others on one. -/
theorem sides_kept (lines : List Text) :
    oldSide (lines.map (Mark.kept, ·)) = lines ∧ newSide (lines.map (Mark.kept, ·)) = lines := by
  simp [oldSide, newSide, List.filter_map, Function.comp_def]

theorem sides_changed (gone added : List Text) :
    oldSide (gone.map (Mark.deleted, ·) ++ added.map (Mark.inserted, ·)) = gone ∧
      newSide (gone.map (Mark.deleted, ·) ++ added.map (Mark.inserted, ·)) = added := by
  have all (lines : List Text) : lines.filter (fun _ => true) = lines := by simp
  have none (lines : List Text) : lines.filter (fun _ => false) = [] := by simp
  simp [oldSide, newSide, List.filter_map, Function.comp_def, all, none]

end Patch

/-- The lines of a piece are those that it covers. -/
theorem Diff.Piece.Fits.sides {piece : Piece} {oldFront newFront gone added : List Text}
    (fits : piece.Fits oldFront.length newFront.length gone added) (oldBack newBack : List Text) :
    let lines := piece.lines (oldFront ++ (gone ++ oldBack)) (newFront ++ (added ++ newBack))
    oldSide lines = gone ∧ newSide lines = added := by
  cases fits with
  | keep filled =>
      simp only [Piece.lines, Piece.keptAt, if_true, take_drop_of_placed fun _ => rfl]
      exact sides_kept gone
  | change filled oldPlaced newPlaced =>
      simp only [Piece.lines, Bool.false_eq_true, if_false, take_drop_of_placed oldPlaced,
        take_drop_of_placed newPlaced]
      exact sides_changed gone added

/-- The lines of pieces are those that they cover. -/
theorem Diff.Covers.sides {oldFront newFront gone added : List Text} {pieces : List Piece}
    (covers : Covers oldFront.length newFront.length pieces gone added)
    (oldBack newBack : List Text) :
    let lines := pieces.flatMap
      (·.lines (oldFront ++ (gone ++ oldBack)) (newFront ++ (added ++ newBack)))
    oldSide lines = gone ∧ newSide lines = added := by
  induction pieces generalizing oldFront newFront gone added with
  | nil =>
      cases covers
      exact ⟨rfl, rfl⟩
  | cons piece pieces inductionHypothesis =>
      cases covers with
      | @cons _ _ _ gone added _ old new fits rest =>
          rw [← List.length_append, ← List.length_append] at rest
          obtain ⟨oldSame, newSame⟩ := fits.sides (old ++ oldBack) (new ++ newBack)
          obtain ⟨oldLater, newLater⟩ := inductionHypothesis rest
          simp only [List.append_assoc] at oldLater newLater ⊢
          constructor
          · rw [List.flatMap_cons, oldSide_append, oldSame, oldLater]
          · rw [List.flatMap_cons, newSide_append, newSame, newLater]

/-! ## Patches -/

/-- The output for hunks that show all changes is read as a patch that makes the new lines out of
    the old ones, behind the lines dealt with. -/
theorem Diff.Shown.exists_patch {wholeOld wholeNew oldFront newFront old new : List Text}
    {hunks : List (List Piece)} (shown : Shown oldFront.length newFront.length hunks old new)
    (oldWhole : wholeOld = oldFront ++ old) (newWhole : wholeNew = newFront ++ new)
    (plain : ∀ line, line ∈ wholeOld ∨ line ∈ wholeNew → PlainLine line) :
    ∃ patch, Written (hunks.flatMap (hunkParts wholeOld wholeNew)) patch ∧
      (∀ hunk ∈ patch, hunk.Counted) ∧
      applyFrom oldFront.length newFront.length patch old = some new := by
  induction hunks generalizing oldFront newFront old new with
  | nil =>
      cases shown
      exact ⟨[], .nil, by simp, rfl⟩
  | cons hunk hunks inductionHypothesis =>
      rcases shown with _ | @⟨_, _, gap, gone, added, _, _, old, new, filled, covers, starts, stops, later⟩
      have oldPlace : oldFront.length + gap.length = (oldFront ++ gap).length := by simp
      have newPlace : newFront.length + gap.length = (newFront ++ gap).length := by simp
      rw [oldPlace, newPlace] at covers starts stops later
      rw [← List.length_append, ← List.length_append] at later
      obtain ⟨patch, written, counted, applied⟩ := inductionHypothesis later (by simp [oldWhole])
        (by simp [newWhole])
      have sides := covers.sides old new
      have oldLines : oldFront ++ gap ++ (gone ++ old) = wholeOld := by simp [oldWhole]
      have newLines : newFront ++ gap ++ (added ++ new) = wholeNew := by simp [newWhole]
      rw [oldLines, newLines] at sides
      obtain ⟨oldSame, newSame⟩ := sides
      have plainLines : ∀ line ∈ hunk.flatMap (·.lines wholeOld wholeNew), PlainLine line.2 := by
        intro line member
        obtain ⟨piece, _, inside⟩ := List.mem_flatMap.mp member
        exact plain line.2 (mem_lines inside)
      refine ⟨_, written.cons filled starts stops plainLines, ?counted, ?applied⟩
      case counted =>
        refine List.forall_mem_cons.mpr ⟨⟨?_, ?_⟩, counted⟩
        · simp [Hunk.oldLines, oldSame]
        · simp [Hunk.newLines, newSame]
      case applied =>
        have skip : oldFront.length + gap.length - oldFront.length = gap.length :=
          Nat.add_sub_cancel_left ..
        simp only [applyFrom, linesBefore_rangeStart, Hunk.oldLines, Hunk.newLines, oldSame, newSame,
          List.length_append, skip, List.take_left, List.drop_left]
        rw [if_pos ⟨trivial, trivial, List.prefix_append gone old⟩]
        simp only [List.length_append] at applied
        rw [applied]
        rfl

/-- The first piece of the script names the start of both texts, and the last one their end. -/
def Diff.Located (old new : Text) : Prop :=
  Starts 0 0 (pieces (linesOf old) (linesOf new)) ∧
    Stops (linesOf old).length (linesOf new).length (pieces (linesOf old) (linesOf new))

instance (old new : Text) : Decidable (Located old new) :=
  inferInstanceAs (Decidable ((∀ _ ∈ _, _) ∧ ∀ _ ∈ _, _))

/-- The ends of the script name their place when its first and its last piece have lines of both
    texts. -/
theorem Diff.located_of_two_sided {old new : Text}
    (first : ∀ piece ∈ (pieces (linesOf old) (linesOf new)).head?,
      0 < piece.oldCount ∧ 0 < piece.newCount)
    (last : ∀ piece ∈ (pieces (linesOf old) (linesOf new)).getLast?,
      0 < piece.oldCount ∧ 0 < piece.newCount) : Located old new := by
  have covers := covers_pieces (linesOf old) (linesOf new)
  have stops := covers.stops_of_two_sided last
  rw [Nat.zero_add, Nat.zero_add] at stops
  exact ⟨covers.starts_of_two_sided first, stops⟩

/-- The diff of two texts can be read, the counts in its headers are those of its lines, and it
    makes the new text out of the old one. -/
def Diff.Faithful (name : String) (old new : Text) : Prop :=
  ∃ hunks ∈ Patch.read (unified name old new),
    (∀ hunk ∈ hunks, hunk.Counted) ∧ Patch.apply hunks old = some new

instance (name : String) (old new : Text) : Decidable (Faithful name old new) :=
  inferInstanceAs (Decidable (∃ _ ∈ _, _))

/-- The text of a diff is that of its parts. -/
theorem Diff.unified_eq_flatten (name : String) (old new : Text) :
    unified name old new = s!"--- a/{name}\n+++ b/{name}\n".toList ++
      ((hunksOf (pieces (linesOf old) (linesOf new))).flatMap
        (hunkParts (linesOf old) (linesOf new))).flatten := by
  rw [unified, flatten_flatMap (flatten_hunkParts _ _)]

/-- The diff of two texts is a faithful patch when no line of either ends in a carriage return by
    itself, the name of the file has no line feed, and the ends of the script name their place. -/
theorem unified_faithful {name : String} {old new : Text} (named : '\n' ∉ name.toList)
    (oldPaired : NoLoneReturn old) (newPaired : NoLoneReturn new) (located : Located old new) :
    Faithful name old new := by
  obtain ⟨oldLines, oldPlain⟩ := linesOf_eq_feedLines oldPaired
  obtain ⟨newLines, newPlain⟩ := linesOf_eq_feedLines newPaired
  have plain : ∀ line, line ∈ linesOf old ∨ line ∈ linesOf new → PlainLine line := by
    rintro line (inOld | inNew)
    · exact oldPlain line inOld
    · exact newPlain line inNew
  have shown := shown_hunksOf (covers_pieces (linesOf old) (linesOf new)) located.1 located.2
  obtain ⟨patch, written, counted, applied⟩ :=
    @Shown.exists_patch _ _ [] [] _ _ _ shown rfl rfl plain
  refine ⟨patch, ?reads, counted, ?applies⟩
  case reads =>
    rw [unified_eq_flatten]
    exact written.read_named named
  case applies =>
    rw [Patch.apply, ← oldLines]
    exact (congrArg (Option.map List.flatten) applied).trans
      (congrArg some (flatten_linesOf new))

/-- A line without an end is shown with a remark, and it is made again without an end. -/
theorem unified_faithful_open_end :
    let old := "<App>\n  <A b c/>".toList
    let new := "<App>\n  <A b\n     c/>".toList
    '\n' ∉ "App.jsx".toList ∧ NoLoneReturn old ∧ NoLoneReturn new ∧ Located old new ∧
      Faithful "App.jsx" old new := by
  intro old new
  have named : '\n' ∉ "App.jsx".toList := by decide
  have oldPaired : NoLoneReturn old := by decide +kernel
  have newPaired : NoLoneReturn new := by decide +kernel
  have located : Located old new := by decide +kernel
  exact ⟨named, oldPaired, newPaired, located,
    unified_faithful named oldPaired newPaired located⟩

/-- A carriage return by itself ends a line of the diff, but none of what a reader sees: the line
    and the one behind it are read as one, and the counts of the header are wrong. -/
theorem unified_not_faithful_lone_return :
    ¬ Faithful "App.jsx" "x\r<A b c/>\n".toList "x\r<A b\n     c/>\n".toList := by
  decide +kernel

/-- An insertion that has changed places with a deletion carries the index of before. When the
    script stops with it, the header counts one old line where the hunk has two. -/
example : unified "App.jsx" "<A b c/>\n<A b\n".toList "<A b\n   c/>\n<A b\n".toList =
    ("--- a/App.jsx\n+++ b/App.jsx\n@@ -1 +2,2 @@\n-<A b c/>\n <A b\n" ++
      "+   c/>\n+<A b\n").toList := by decide +kernel

end TagWrap
