import TagWrap.Diff.Hunk
import TagWrap.Proofs.SlidChanges

/-!
# Pieces cover both texts

Pieces cover the old lines and the new lines when they go through both in order. As with steps, a
piece with lines on one side only may name any line of the other. The pieces of two texts cover
both (`covers_pieces`).

The first piece names where both texts start, and the last one where they stop, unless it has lines
on one side only.
-/
namespace TagWrap.Diff

/-- Kept lines as a piece. -/
def Piece.keptAt (oldAt newAt : Nat) (lines : List Text) : Piece :=
  ⟨true, oldAt, lines.length, newAt, lines.length⟩

/-- A piece that starts at an old line and at a new line covers old lines and new ones. -/
inductive Piece.Fits : Nat → Nat → Piece → List Text → List Text → Prop
  | keep {oldAt newAt : Nat} {lines : List Text} (filled : lines ≠ []) :
      Fits oldAt newAt (keptAt oldAt newAt lines) lines lines
  | change {oldAt newAt oldStart newStart : Nat} {gone added : List Text}
      (filled : gone ≠ [] ∨ added ≠ []) (oldPlaced : gone ≠ [] → oldStart = oldAt)
      (newPlaced : added ≠ [] → newStart = newAt) :
      Fits oldAt newAt ⟨false, oldStart, gone.length, newStart, added.length⟩ gone added

/-- Pieces that start at an old line and at a new line cover old lines and new ones. -/
inductive Covers : Nat → Nat → List Piece → List Text → List Text → Prop
  | done {oldAt newAt : Nat} : Covers oldAt newAt [] [] []
  | cons {oldAt newAt : Nat} {piece : Piece} {gone added : List Text} {pieces : List Piece}
      {old new : List Text} (fits : piece.Fits oldAt newAt gone added)
      (rest : Covers (oldAt + gone.length) (newAt + added.length) pieces old new) :
      Covers oldAt newAt (piece :: pieces) (gone ++ old) (added ++ new)

/-! ## Pieces -/

/-- A step in front of pieces, as pieces are built. -/
def push (step : Step) : List Piece → List Piece
  | piece :: pieces =>
      if piece.kept = (step.action == .keep) then piece.cons step :: pieces
      else .ofStep step :: piece :: pieces
  | [] => [.ofStep step]

/-- Pieces are built by putting one step after the other in front. -/
theorem piecesOf_cons (step : Step) (steps : List Step) :
    piecesOf (step :: steps) = push step (piecesOf steps) := by
  rw [piecesOf]
  cases piecesOf steps <;> rfl

namespace Covers

variable {oldAt newAt carried : Nat} {lines : List Text} {pieces : List Piece}
  {old new : List Text} (filled : lines ≠ [])

include filled

/-- Kept lines join a piece of kept lines, or are a piece of their own. -/
theorem push_keep
    (rest : Covers (oldAt + lines.length) (newAt + lines.length) pieces old new) :
    Covers oldAt newAt (push ⟨.keep, oldAt, newAt, lines.length⟩ pieces) (lines ++ old)
      (lines ++ new) := by
  cases rest with
  | done => exact .cons (.keep filled) .done
  | cons fits rest =>
      cases fits with
      | change changed oldPlaced newPlaced =>
          exact .cons (.keep filled) (.cons (.change changed oldPlaced newPlaced) rest)
      | @keep others _ =>
          rw [Nat.add_assoc, Nat.add_assoc, ← List.length_append] at rest
          rw [← List.append_assoc, ← List.append_assoc]
          have joined := cons (.keep (by simp [filled])) rest
          rwa [Piece.keptAt, List.length_append] at joined

/-- Deleted lines join a piece of changes, or are a piece of their own. -/
theorem push_delete (rest : Covers (oldAt + lines.length) newAt pieces old new) :
    Covers oldAt newAt (push ⟨.delete, oldAt, carried, lines.length⟩ pieces) (lines ++ old)
      new := by
  have alone : Piece.Fits oldAt newAt ⟨false, oldAt, lines.length, carried, 0⟩ lines [] :=
    @Piece.Fits.change oldAt newAt oldAt carried lines [] (.inl filled) (fun _ => rfl)
      (fun some => absurd rfl some)
  have single := cons alone rest
  cases rest with
  | done => exact single
  | @cons _ _ _ gone added _ _ _ fits rest =>
      cases fits with
      | keep => exact single
      | @change oldStart newStart _ _ _ _ newPlaced =>
          rw [Nat.add_assoc, ← List.length_append] at rest
          rw [← List.append_assoc]
          have joined : Piece.Fits oldAt newAt ⟨false, oldAt, (lines ++ gone).length,
              if added.length = 0 then carried else newStart, added.length⟩ (lines ++ gone) added :=
            .change (by simp [filled]) (fun _ => rfl) (fun some => by simp [some, newPlaced])
          rw [List.length_append] at joined
          exact .cons joined rest

/-- Inserted lines join a piece of changes, or are a piece of their own. -/
theorem push_insert (rest : Covers oldAt (newAt + lines.length) pieces old new) :
    Covers oldAt newAt (push ⟨.insert, carried, newAt, lines.length⟩ pieces) old
      (lines ++ new) := by
  have alone : Piece.Fits oldAt newAt ⟨false, carried, 0, newAt, lines.length⟩ [] lines :=
    @Piece.Fits.change oldAt newAt carried newAt [] lines (.inr filled)
      (fun some => absurd rfl some) (fun _ => rfl)
  have single := cons alone rest
  cases rest with
  | done => exact single
  | @cons _ _ _ gone added _ _ _ fits rest =>
      cases fits with
      | keep => exact single
      | @change oldStart newStart _ _ _ oldPlaced _ =>
          rw [Nat.add_assoc, ← List.length_append] at rest
          rw [← List.append_assoc]
          have joined : Piece.Fits oldAt newAt
              ⟨false, if gone.length = 0 then carried else oldStart, gone.length, newAt,
                (lines ++ added).length⟩ gone (lines ++ added) :=
            .change (by simp [filled]) (fun some => by simp [some, oldPlaced]) (fun _ => rfl)
          rw [List.length_append] at joined
          exact .cons joined rest

end Covers

/-- The pieces of a script cover the lines that the script leads between. -/
theorem covers_piecesOf {oldAt newAt : Nat} {steps : List Step} {old new : List Text}
    (leads : Leads oldAt newAt steps old new) :
    Covers oldAt newAt (piecesOf steps) old new := by
  induction leads with
  | done => exact .done
  | keep filled _ inductionHypothesis =>
      rw [piecesOf_cons]
      exact inductionHypothesis.push_keep filled
  | delete filled _ inductionHypothesis =>
      rw [piecesOf_cons]
      exact inductionHypothesis.push_delete filled
  | insert filled _ inductionHypothesis =>
      rw [piecesOf_cons]
      exact inductionHypothesis.push_insert filled

/-- The pieces of two texts cover both. -/
theorem covers_pieces (old new : List Text) : Covers 0 0 (pieces old new) old new :=
  covers_piecesOf (leads_slide (leads_script old new))

/-! ## Ends -/

/-- Pieces start at an old line and at a new line by the indexes that the first one carries. -/
def Starts (oldAt newAt : Nat) (pieces : List Piece) : Prop :=
  ∀ first ∈ pieces.head?, first.old = oldAt ∧ first.new = newAt

/-- Pieces stop at an old line and at a new line by the indexes that the last one carries. -/
def Stops (oldAt newAt : Nat) (pieces : List Piece) : Prop :=
  ∀ last ∈ pieces.getLast?, last.old + last.oldCount = oldAt ∧ last.new + last.newCount = newAt

@[simp] theorem starts_cons {oldAt newAt : Nat} {piece : Piece} {pieces : List Piece} :
    Starts oldAt newAt (piece :: pieces) ↔ piece.old = oldAt ∧ piece.new = newAt := by
  simp [Starts]

@[simp] theorem stops_nil {oldAt newAt : Nat} : Stops oldAt newAt [] := by simp [Stops]

@[simp] theorem stops_singleton {oldAt newAt : Nat} {piece : Piece} :
    Stops oldAt newAt [piece] ↔
      piece.old + piece.oldCount = oldAt ∧ piece.new + piece.newCount = newAt := by
  simp [Stops]

/-- Pieces stop where the later ones do. -/
@[simp] theorem stops_cons {oldAt newAt : Nat} {piece next : Piece} {pieces : List Piece} :
    Stops oldAt newAt (piece :: next :: pieces) ↔ Stops oldAt newAt (next :: pieces) := by
  rw [Stops, Stops, List.getLast?_cons_cons]

namespace Covers

variable {oldAt newAt : Nat} {piece : Piece} {pieces : List Piece} {old new : List Text}

/-- Pieces stop where those behind the first one do, or where the first one does if it is alone. -/
theorem stops_cons (covers : Covers oldAt newAt pieces old new)
    (stops : Stops (oldAt + old.length) (newAt + new.length) pieces)
    (alone : pieces = [] → Stops oldAt newAt [piece]) :
    Stops (oldAt + old.length) (newAt + new.length) (piece :: pieces) := by
  cases covers with
  | done => exact alone rfl
  | cons => exact Diff.stops_cons.mpr stops

/-- Pieces name their start when the first one has lines on both sides. -/
theorem starts_of_two_sided (covers : Covers oldAt newAt pieces old new)
    (sides : ∀ first ∈ pieces.head?, 0 < first.oldCount ∧ 0 < first.newCount) :
    Starts oldAt newAt pieces := by
  cases covers with
  | done => simp [Starts]
  | cons fits rest =>
      rw [starts_cons]
      cases fits with
      | keep => exact ⟨rfl, rfl⟩
      | change _ oldPlaced newPlaced =>
          obtain ⟨someOld, someNew⟩ := sides _ rfl
          exact ⟨oldPlaced (List.length_pos_iff.mp someOld),
            newPlaced (List.length_pos_iff.mp someNew)⟩

/-- Pieces name their end when the last one has lines on both sides. -/
theorem stops_of_two_sided (covers : Covers oldAt newAt pieces old new)
    (sides : ∀ last ∈ pieces.getLast?, 0 < last.oldCount ∧ 0 < last.newCount) :
    Stops (oldAt + old.length) (newAt + new.length) pieces := by
  induction covers with
  | done => exact stops_nil
  | @cons oldAt newAt piece gone added pieces old new fits rest inductionHypothesis =>
      rw [List.length_append, List.length_append, ← Nat.add_assoc, ← Nat.add_assoc]
      refine rest.stops_cons (inductionHypothesis fun last member => sides last ?_) fun none => ?_
      · cases pieces with
        | nil => cases member
        | cons next pieces => rwa [List.getLast?_cons_cons]
      · subst none
        rw [stops_singleton]
        cases fits with
        | keep => exact ⟨rfl, rfl⟩
        | change _ oldPlaced newPlaced =>
            obtain ⟨someOld, someNew⟩ := sides _ rfl
            rw [oldPlaced (List.length_pos_iff.mp someOld),
              newPlaced (List.length_pos_iff.mp someNew)]
            exact ⟨rfl, rfl⟩

end Covers

end TagWrap.Diff
