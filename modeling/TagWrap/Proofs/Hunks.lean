import TagWrap.Proofs.Pieces

/-!
# Hunks show all changes

Hunks leave out lines that are the same on both sides, and only those. What is left out before a
hunk is a gap. A hunk starts and stops with kept lines, which name their place on either side,
unless it starts with the first piece of all or stops with the last one. So all hunks name their
place when these two pieces do (`shown_hunksOf`).
-/
namespace TagWrap.Diff

/-! ## Trimming -/

namespace Piece

variable {oldAt newAt : Nat}

/-- The first of kept lines. -/
theorem takeFront_keptAt (lines : List Text) (count : Nat) :
    (keptAt oldAt newAt lines).takeFront count = keptAt oldAt newAt (lines.take count) := by
  simp [keptAt, takeFront, Nat.min_comm]

/-- The last of kept lines. -/
theorem takeBack_keptAt (lines : List Text) (count : Nat) :
    ∃ front back, lines = front ++ back ∧ front.length = lines.length - count ∧
      (keptAt oldAt newAt lines).takeBack count =
        keptAt (oldAt + front.length) (newAt + front.length) back := by
  refine ⟨lines.take (lines.length - count), lines.drop (lines.length - count), by simp, ?_, ?_⟩
  · simp
  · simp [keptAt, takeBack, dropFront]

/-- Many kept lines fall into what is shown at their front, what is shown at their back, and what
    lies between. -/
theorem exists_cut_keptAt {lines : List Text} (long : 2 * radius < lines.length) :
    ∃ upper gap lower, lines = upper ++ (gap ++ lower) ∧ upper ≠ [] ∧ lower ≠ [] ∧
      (keptAt oldAt newAt lines).takeFront radius = keptAt oldAt newAt upper ∧
      (keptAt oldAt newAt lines).takeBack radius =
        keptAt (oldAt + upper.length + gap.length) (newAt + upper.length + gap.length) lower := by
  obtain ⟨front, lower, rfl, size, taken⟩ := @takeBack_keptAt oldAt newAt lines radius
  rw [List.length_append] at long size
  have shown : 0 < radius := by decide
  have inFront : (front ++ lower).take radius = front.take radius :=
    List.take_append_of_le_length (by omega)
  have upperSize : (front.take radius).length = radius := List.length_take_of_le (by omega)
  have cut : (front.take radius).length + (front.drop radius).length = front.length := by
    rw [← List.length_append, List.take_append_drop]
  refine ⟨front.take radius, front.drop radius, lower, ?_, ?_, ?_, ?_, ?_⟩
  · rw [← List.append_assoc, List.take_append_drop]
  · exact List.length_pos_iff.mp (by omega)
  · exact List.length_pos_iff.mp (by omega)
  · rw [takeFront_keptAt, inFront]
  · rw [taken, Nat.add_assoc, Nat.add_assoc, cut]

end Piece

/-- Trimming the front leaves out kept lines. -/
theorem exists_trimFront {oldAt newAt : Nat} {pieces : List Piece} {old new : List Text}
    (covers : Covers oldAt newAt pieces old new) (starts : Starts oldAt newAt pieces)
    (stops : Stops (oldAt + old.length) (newAt + new.length) pieces) :
    ∃ gap oldRest newRest, old = gap ++ oldRest ∧ new = gap ++ newRest ∧
      Covers (oldAt + gap.length) (newAt + gap.length) (trimFront pieces) oldRest newRest ∧
      Starts (oldAt + gap.length) (newAt + gap.length) (trimFront pieces) ∧
      Stops (oldAt + old.length) (newAt + new.length) (trimFront pieces) := by
  cases covers with
  | done => exact ⟨[], [], [], rfl, rfl, .done, by simpa [trimFront] using starts, by simp [trimFront]⟩
  | @cons _ _ piece gone added pieces oldRest newRest fits rest =>
      cases fits with
      | change changed oldPlaced newPlaced =>
          exact ⟨[], gone ++ oldRest, added ++ newRest, rfl, rfl,
            .cons (.change changed oldPlaced newPlaced) rest, starts, stops⟩
      | keep filled =>
          obtain ⟨front, back, rfl, size, taken⟩ :=
            @Piece.takeBack_keptAt oldAt newAt gone radius
          have some : back ≠ [] := by
            rintro rfl
            have counted := List.length_pos_iff.mpr filled
            simp only [radius, List.append_nil] at size counted
            omega
          have trimmed : trimFront (.keptAt oldAt newAt (front ++ back) :: pieces) =
              .keptAt (oldAt + front.length) (newAt + front.length) back :: pieces := by
            rw [← taken]
            rfl
          rw [trimmed]
          refine ⟨front, back ++ oldRest, back ++ newRest, by simp, by simp,
            .cons (.keep some) (by simpa [Nat.add_assoc] using rest),
            by simp [Piece.keptAt], ?_⟩
          cases pieces with
          | nil =>
              cases rest
              simp [Piece.keptAt, Nat.add_assoc]
          | cons next pieces => simpa using stops

/-- Trimming the back leaves a piece of each row of pieces. -/
theorem exists_trimBack_cons (piece : Piece) (pieces : List Piece) :
    ∃ first others, trimBack (piece :: pieces) = first :: others := by
  cases pieces with
  | nil => exact ⟨_, [], rfl⟩
  | cons next pieces => exact ⟨piece, trimBack (next :: pieces), rfl⟩

/-- Trimming the back leaves out kept lines. -/
theorem exists_trimBack {oldAt newAt : Nat} {pieces : List Piece} {old new : List Text}
    (covers : Covers oldAt newAt pieces old new)
    (stops : Stops (oldAt + old.length) (newAt + new.length) pieces) :
    ∃ oldFront newFront rest, old = oldFront ++ rest ∧ new = newFront ++ rest ∧
      Covers oldAt newAt (trimBack pieces) oldFront newFront ∧
      (∀ oldStart newStart, Starts oldStart newStart pieces →
        Starts oldStart newStart (trimBack pieces)) ∧
      Stops (oldAt + oldFront.length) (newAt + newFront.length) (trimBack pieces) := by
  induction covers with
  | done => exact ⟨[], [], [], rfl, rfl, .done, fun _ _ starts => starts, by simp [trimBack]⟩
  | @cons oldAt newAt piece gone added pieces old new fits rest inductionHypothesis =>
      cases rest with
      | done =>
          cases fits with
          | @change oldStart newStart _ _ changed oldPlaced newPlaced =>
              have trimmed : trimBack [⟨false, oldStart, gone.length, newStart, added.length⟩] =
                [⟨false, oldStart, gone.length, newStart, added.length⟩] := rfl
              rw [trimmed]
              refine ⟨gone, added, [], rfl, rfl, ?_, fun _ _ starts => starts, ?_⟩
              · simpa using Covers.cons (.change changed oldPlaced newPlaced) .done
              · simpa using stops
          | keep filled =>
              have trimmed : trimBack [.keptAt oldAt newAt gone] =
                  [.keptAt oldAt newAt (gone.take radius)] := by
                rw [← Piece.takeFront_keptAt]
                rfl
              have some : gone.take radius ≠ [] := by simp [filled, radius]
              rw [trimmed]
              refine ⟨gone.take radius, gone.take radius, gone.drop radius, by simp, by simp, ?_, ?_, ?_⟩
              · simpa using Covers.cons (.keep some) .done
              · intro oldStart newStart starts
                simpa [Piece.keptAt] using starts
              · simp [Piece.keptAt]
      | @cons _ _ next _ _ more _ _ nextFits later =>
          obtain ⟨oldFront, newFront, kept, oldWhole, newWhole, covers, -, stopped⟩ :=
            inductionHypothesis (by simpa [Nat.add_assoc] using stops)
          have trimmed : trimBack (piece :: next :: more) = piece :: trimBack (next :: more) := rfl
          rw [trimmed, oldWhole, newWhole]
          refine ⟨gone ++ oldFront, added ++ newFront, kept, by simp, by simp, .cons fits covers,
            ?_, ?_⟩
          · intro oldStart newStart starts
            simpa using starts
          · obtain ⟨first, others, same⟩ := exists_trimBack_cons next more
            rw [same] at stopped ⊢
            simpa [Nat.add_assoc] using stopped

/-! ## Hunks -/

/-- Hunks behind an old line and a new line show how old lines and new ones differ: what stands
    before a hunk and behind the last one is the same on both sides, and each hunk covers the
    lines at the place that it names. -/
inductive Shown : Nat → Nat → List (List Piece) → List Text → List Text → Prop
  | rest {oldAt newAt : Nat} {lines : List Text} : Shown oldAt newAt [] lines lines
  | hunk {oldAt newAt : Nat} {gap gone added : List Text} {hunk : List Piece}
      {hunks : List (List Piece)} {old new : List Text} (filled : hunk ≠ [])
      (covers : Covers (oldAt + gap.length) (newAt + gap.length) hunk gone added)
      (starts : Starts (oldAt + gap.length) (newAt + gap.length) hunk)
      (stops : Stops (oldAt + gap.length + gone.length) (newAt + gap.length + added.length) hunk)
      (later : Shown (oldAt + gap.length + gone.length) (newAt + gap.length + added.length)
        hunks old new) :
      Shown oldAt newAt (hunk :: hunks) (gap ++ (gone ++ old)) (gap ++ (added ++ new))

/-- Pieces are split into a hunk at their start and hunks behind it. -/
theorem exists_splitHunks {oldAt newAt : Nat} {pieces : List Piece} {old new : List Text}
    (covers : Covers oldAt newAt pieces old new)
    (stops : Stops (oldAt + old.length) (newAt + new.length) pieces) (rest : List Text) :
    ∃ hunk hunks gone added oldLater newLater, splitHunks pieces = hunk :: hunks ∧
      (hunk = [] → pieces = []) ∧ old ++ rest = gone ++ oldLater ∧
      new ++ rest = added ++ newLater ∧ Covers oldAt newAt hunk gone added ∧
      (∀ oldStart newStart, Starts oldStart newStart pieces → Starts oldStart newStart hunk) ∧
      Stops (oldAt + gone.length) (newAt + added.length) hunk ∧
      Shown (oldAt + gone.length) (newAt + added.length) hunks oldLater newLater := by
  induction covers with
  | done =>
      exact ⟨[], [], [], [], rest, rest, rfl, fun _ => rfl, rfl, rfl, .done,
        fun _ _ starts => starts, stops_nil, .rest⟩
  | @cons oldAt newAt piece gone added pieces old new fits covered inductionHypothesis =>
      have stopsLater : Stops (oldAt + gone.length + old.length) (newAt + added.length + new.length)
          pieces := by
        cases covered with
        | done => exact stops_nil
        | cons => simpa [Nat.add_assoc] using stops
      obtain ⟨hunk, hunks, hunkGone, hunkAdded, oldLater, newLater, split, empty, oldWhole,
        newWhole, covers, -, stopped, shown⟩ := inductionHypothesis stopsLater
      rw [splitHunks, split]
      by_cases long : piece.kept = true ∧ 2 * radius < piece.oldCount
      · rw [if_pos long]
        cases fits with
        | change => cases long.1
        | keep filled =>
            obtain ⟨upper, gap, lower, rfl, upperFilled, lowerFilled, front, back⟩ :=
              @Piece.exists_cut_keptAt oldAt newAt gone long.2
            rw [front, back]
            refine ⟨_, _, upper, upper, gap ++ (lower ++ hunkGone ++ oldLater),
              gap ++ (lower ++ hunkAdded ++ newLater), rfl, ?_, ?_, ?_, ?_, ?_, ?_, ?_⟩
            · intro none
              cases none
            · simp [oldWhole]
            · simp [newWhole]
            · simpa using Covers.cons (.keep upperFilled) .done
            · intro oldStart newStart starts
              simpa [Piece.keptAt] using starts
            · simp [Piece.keptAt]
            · rw [List.length_append, List.length_append, ← Nat.add_assoc, ← Nat.add_assoc,
                ← Nat.add_assoc, ← Nat.add_assoc] at covers stopped shown
              refine .hunk (List.cons_ne_nil _ hunk) (.cons (.keep lowerFilled) covers) ?_ ?_ ?_
              · simp [Piece.keptAt]
              · rw [List.length_append, List.length_append, ← Nat.add_assoc, ← Nat.add_assoc]
                exact covers.stops_cons stopped fun _ => by simp [Piece.keptAt]
              · simpa [Nat.add_assoc] using shown
      · rw [if_neg long]
        refine ⟨piece :: hunk, hunks, gone ++ hunkGone, added ++ hunkAdded, oldLater, newLater, rfl,
          ?_, ?_, ?_, .cons fits covers, ?_, ?_, ?_⟩
        · intro none
          cases none
        · rw [List.append_assoc, oldWhole, List.append_assoc]
        · rw [List.append_assoc, newWhole, List.append_assoc]
        · intro oldStart newStart starts
          simpa using starts
        · rw [List.length_append, List.length_append, ← Nat.add_assoc, ← Nat.add_assoc]
          refine covers.stops_cons stopped fun none => ?_
          obtain rfl := empty none
          cases covered
          simpa using stops
        · simpa [Nat.add_assoc] using shown

/-- No hunk is empty. -/
theorem Shown.ne_nil {oldAt newAt : Nat} {hunks : List (List Piece)} {old new : List Text}
    (shown : Shown oldAt newAt hunks old new) : ∀ hunk ∈ hunks, hunk ≠ [] := by
  induction shown with
  | rest => simp
  | hunk filled _ _ _ _ inductionHypothesis =>
      intro hunk member
      rcases List.mem_cons.mp member with rfl | later
      · exact filled
      · exact inductionHypothesis hunk later

/-- A last hunk of kept lines alone can be left out. -/
theorem Shown.leave_out {oldAt newAt : Nat} {hunks : List (List Piece)} {piece : Piece}
    {old new : List Text} (shown : Shown oldAt newAt (hunks ++ [[piece]]) old new)
    (kept : piece.kept = true) : Shown oldAt newAt hunks old new := by
  induction hunks generalizing oldAt newAt old new with
  | nil =>
      rcases shown with _ | ⟨_, covers, _, _, later⟩
      cases later
      rcases covers with _ | ⟨fits, rest⟩
      cases rest
      cases fits with
      | keep => exact .rest
      | change => cases kept
  | cons hunk hunks inductionHypothesis =>
      rcases shown with _ | ⟨filled, covers, starts, stops, later⟩
      exact .hunk filled covers starts stops (inductionHypothesis later)

/-- The hunks of pieces show all changes, when the first piece names the start of both sides and the
    last one names their end. -/
theorem shown_hunksOf {pieces : List Piece} {old new : List Text}
    (covers : Covers 0 0 pieces old new) (starts : Starts 0 0 pieces)
    (stops : Stops old.length new.length pieces) : Shown 0 0 (hunksOf pieces) old new := by
  obtain ⟨gap, oldInner, newInner, rfl, rfl, covers, starts, stops⟩ :=
    exists_trimFront covers starts (by simpa using stops)
  obtain ⟨oldShown, newShown, rest, rfl, rfl, covers, starting, stops⟩ :=
    exists_trimBack covers (by simpa [Nat.add_assoc] using stops)
  obtain ⟨hunk, hunks, gone, added, oldLater, newLater, split, empty, oldWhole, newWhole, covers,
    startsSame, stops, later⟩ := exists_splitHunks covers stops rest
  rw [oldWhole, newWhole, hunksOf, split]
  cases hunk with
  | nil =>
      rw [empty rfl] at split
      cases split
      cases covers
      cases later
      exact .rest
  | cons first others =>
      have shown : Shown 0 0 ((first :: others) :: hunks) (gap ++ (gone ++ oldLater))
          (gap ++ (added ++ newLater)) :=
        .hunk (List.cons_ne_nil first others) covers (startsSame _ _ (starting _ _ starts)) stops later
      split
      · rename_i none
        exact absurd rfl (shown.ne_nil [] (List.mem_of_getLast? none))
      · rename_i piece last
        split
        · rename_i kept
          obtain ⟨front, whole⟩ := List.getLast?_eq_some_iff.mp last
          rw [whole] at shown ⊢
          rw [List.dropLast_concat]
          exact shown.leave_out kept
        · exact shown
      · exact shown

end TagWrap.Diff
