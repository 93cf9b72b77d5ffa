import TagWrap.Proofs.Layout
import TagWrap.Proofs.Overflow
import TagWrap.Proofs.Splice

/-!
# Where the pieces of a tag go

The walk over attributes is followed along the pieces of a layout. Whether an attribute joins
the group before it depends on the gap between the two alone: it does when the gap has no line
feed. So the decision which pieces move, and with which indent, is a recursion on pieces that
never looks at a position. The violations are read off it (`Layout.check_element`), and so is
the text that their edits make of the tag (`spliced_violationsAt`).
-/
namespace TagWrap

open Text

/-- A piece with the decision about it. -/
structure Placement where
  piece : Piece
  /-- The indent behind a new line break, for a piece that moves. -/
  indent? : Option Text

namespace Placement

/-- The piece as its edit leaves it behind: a line break and the indent in the place of the
    blanks at the end of the gap. -/
def settled (lineEnding : LineEnding) (placement : Placement) : Piece :=
  match placement.indent? with
  | none => placement.piece
  | some indent =>
      { placement.piece with gap := trimEnd placement.piece.gap ++ (lineEnding.text ++ indent) }

/-- The violation of a piece that stands behind a text. -/
def violations (lineEnding : LineEnding) (front : Text) (placement : Placement) : List Violation :=
  match placement.indent? with
  | none => []
  | some indent => [breakBefore lineEnding indent (placement.piece.attributeAt front)]

/-- The violations of pieces that stand behind a text. -/
def violationsAt (lineEnding : LineEnding) : Text → List Placement → List Violation
  | _, [] => []
  | front, placement :: others =>
      placement.violations lineEnding front ++
        violationsAt lineEnding (front ++ placement.piece.gap ++ placement.piece.body) others

/-- The pieces of placements as they were. -/
def pieces (placements : List Placement) : List Piece := placements.map piece

/-- The pieces of placements as their edits leave them behind. -/
def settledPieces (lineEnding : LineEnding) (placements : List Placement) : List Piece :=
  placements.map (settled lineEnding)

@[simp] theorem pieces_nil : pieces [] = [] := rfl

@[simp] theorem pieces_cons (placement : Placement) (others : List Placement) :
    pieces (placement :: others) = placement.piece :: pieces others := rfl

@[simp] theorem settledPieces_nil (lineEnding : LineEnding) :
    settledPieces lineEnding [] = [] := rfl

@[simp] theorem settledPieces_cons (lineEnding : LineEnding) (placement : Placement)
    (others : List Placement) :
    settledPieces lineEnding (placement :: others) =
      placement.settled lineEnding :: settledPieces lineEnding others := rfl

/-- A line ending breaks a line. -/
theorem feed_mem_lineEnding (lineEnding : LineEnding) : '\n' ∈ lineEnding.text := by
  cases lineEnding <;> decide

/-- An edit leaves the attribute itself as it is. -/
@[simp] theorem settled_body (lineEnding : LineEnding) (placement : Placement) :
    (placement.settled lineEnding).body = placement.piece.body := by
  unfold settled
  cases placement.indent? <;> rfl

@[simp] theorem settled_name (lineEnding : LineEnding) (placement : Placement) :
    (placement.settled lineEnding).name = placement.piece.name := by
  unfold settled
  cases placement.indent? <;> rfl

/-- A piece that does not move stays as it is. -/
theorem settled_of_stays {lineEnding : LineEnding} {placement : Placement}
    (stays : placement.indent? = none) : placement.settled lineEnding = placement.piece := by
  simp [settled, stays]

/-- A piece that moves stands behind a line feed. -/
theorem feed_mem_settled {lineEnding : LineEnding} {placement : Placement} {indent : Text}
    (moves : placement.indent? = some indent) : '\n' ∈ (placement.settled lineEnding).gap := by
  have breaks := feed_mem_lineEnding lineEnding
  simp [settled, moves, breaks]

/-- The names of the attributes stay. -/
theorem map_name_settledPieces (lineEnding : LineEnding) (placements : List Placement) :
    (settledPieces lineEnding placements).map Piece.name = (pieces placements).map Piece.name := by
  simp [settledPieces, pieces, Function.comp_def]

/-- Pieces of which none moves stay as they are. -/
theorem settledPieces_of_stay {lineEnding : LineEnding} {placements : List Placement}
    (stay : ∀ placement ∈ placements, placement.indent? = none) :
    settledPieces lineEnding placements = pieces placements :=
  List.map_congr_left fun placement member => settled_of_stays (stay placement member)

/-- There is no violation exactly when no piece moves. -/
theorem violationsAt_eq_nil {lineEnding : LineEnding} {front : Text} {placements : List Placement} :
    violationsAt lineEnding front placements = [] ↔
      ∀ placement ∈ placements, placement.indent? = none := by
  induction placements generalizing front with
  | nil => simp [violationsAt]
  | cons placement others inductionHypothesis =>
      have lone : placement.violations lineEnding front = [] ↔ placement.indent? = none := by
        unfold violations
        cases placement.indent? <;> simp
      simp [violationsAt, lone, inductionHypothesis]

/-- A violation is that of a piece that moves, with other pieces before and after it. -/
theorem mem_violationsAt {lineEnding : LineEnding} {front : Text} {placements : List Placement}
    {violation : Violation} (found : violation ∈ violationsAt lineEnding front placements) :
    ∃ before placement after indent, placements = before ++ placement :: after ∧
      placement.indent? = some indent ∧
      violation = breakBefore lineEnding indent
        (placement.piece.attributeAt (front ++ Piece.flat (pieces before))) := by
  induction placements generalizing front with
  | nil => simp [violationsAt] at found
  | cons placement others inductionHypothesis =>
      rcases List.mem_append.mp found with own | later
      · unfold violations at own
        cases moves : placement.indent? with
        | none => simp [moves] at own
        | some indent =>
            rw [moves, List.mem_singleton] at own
            exact ⟨[], placement, others, indent, rfl, moves, by simpa using own⟩
      · obtain ⟨before, other, after, indent, rfl, moves, rfl⟩ := inductionHypothesis later
        refine ⟨placement :: before, other, after, indent, rfl, moves, ?_⟩
        simp [Piece.flat_cons]

/-- The edit of a piece replaces the blanks at the end of its gap. -/
theorem spliced_violations (lineEnding : LineEnding) (front : Text) (placement : Placement) :
    Edit.Spliced (byteSize front) placement.piece.text
      ((placement.violations lineEnding front).map Violation.edit)
      (placement.settled lineEnding).text := by
  unfold violations settled
  cases placement.indent? with
  | none => exact .rest _ _
  | some indent =>
      obtain ⟨blanks, trimmed, _⟩ := exists_trimEnd placement.piece.gap
      refine Edit.Spliced.cons_iff.mpr ⟨trimEnd placement.piece.gap, blanks, placement.piece.body,
        placement.piece.body, by rw [← trimmed]; rfl, rfl, (byteSize_append _ _).symm, ?_,
        .rest _ _⟩
      change byteSize (front ++ trimEnd placement.piece.gap) + byteSize blanks =
        byteSize (front ++ placement.piece.gap)
      rw [← byteSize_append, List.append_assoc, ← trimmed]

/-- The edits of pieces in a row settle the pieces. -/
theorem spliced_violationsAt (lineEnding : LineEnding) (front : Text)
    (placements : List Placement) :
    Edit.Spliced (byteSize front) (Piece.flat (pieces placements))
      ((violationsAt lineEnding front placements).map Violation.edit)
      (Piece.flat (settledPieces lineEnding placements)) := by
  induction placements generalizing front with
  | nil => exact .rest _ _
  | cons placement others inductionHypothesis =>
      have later := inductionHypothesis (front ++ placement.piece.gap ++ placement.piece.body)
      rw [List.append_assoc front, byteSize_append] at later
      have whole := (spliced_violations lineEnding front placement).append later
      rw [← List.map_append, ← List.append_assoc front] at whole
      exact whole

end Placement

open Placement

/-- Decide about the pieces behind one whose group holds `held` attributes so far. The tag is
    still `level` when no line feed stands behind the start of the group. -/
def planFrom (limit : LineLimit) (indent : Text) :
    (held : Nat) → (level : Bool) → List Piece → List Placement
  | _, _, [] => []
  | held, level, piece :: others =>
      if '\n' ∈ piece.gap then
        ⟨piece, none⟩ :: planFrom limit indent 1 (decide ('\n' ∉ piece.body)) others
      else
        ⟨piece, if limit.enforced ∧ limit.cap ≤ held then some (if level then indent else [])
          else none⟩ ::
          planFrom limit indent (held + 1) (level && decide ('\n' ∉ piece.body)) others

/-- An attribute stands on the line where the one before it ends when no line feed stands between
    the two. -/
theorem Attribute.continues_iff {previous next : Attribute} {front between : Text}
    (stops : previous.stopLine = front.count '\n')
    (starts : next.startLine = (front ++ between).count '\n') :
    previous.continues next = true ↔ '\n' ∉ between := by
  rw [continues, beq_iff_eq, starts, stops, List.count_append, ← List.count_eq_zero]
  omega

section Plan

variable {limit : LineLimit} {indent : Text} {held : Nat} {level : Bool} {pieces : List Piece}

/-- There is a decision about each piece. -/
@[simp] theorem pieces_planFrom :
    Placement.pieces (planFrom limit indent held level pieces) = pieces := by
  induction pieces generalizing held level with
  | nil => rfl
  | cons piece others inductionHypothesis =>
      rw [planFrom]
      split <;> simp [inductionHypothesis]

/-- Only a piece that joins the line before it moves, and it moves to the indent of the tag or to
    the start of a line. -/
theorem moves_planFrom {placement : Placement}
    (member : placement ∈ planFrom limit indent held level pieces) {own : Text}
    (moves : placement.indent? = some own) :
    '\n' ∉ placement.piece.gap ∧ (own = indent ∨ own = []) := by
  induction pieces generalizing held level with
  | nil => simp [planFrom] at member
  | cons piece others inductionHypothesis =>
      rw [planFrom] at member
      split at member
      · rcases List.mem_cons.mp member with rfl | later
        · simp at moves
        · exact inductionHypothesis later
      · rename_i joined
        rcases List.mem_cons.mp member with rfl | later
        · refine ⟨joined, ?_⟩
          cases level <;> simp_all
        · exact inductionHypothesis later

/-- Nothing moves when the limit is not enforced. -/
theorem planFrom_of_unenforced (free : limit.enforced = false) :
    ∀ placement ∈ planFrom limit indent held level pieces, placement.indent? = none := by
  induction pieces generalizing held level with
  | nil => simp [planFrom]
  | cons piece others inductionHypothesis =>
      rw [planFrom]
      split <;> simpa [free] using inductionHypothesis

/-- Pieces that are settled under a limit need not move under a limit that allows as much.

    The induction is on the pieces, with the groups of the settled pieces never longer than those
    of the pieces: a group is cut short before each piece that moves, and grows by one with each
    piece that stays. -/
theorem planFrom_settledPieces {wider : LineLimit} {lineEnding : LineEnding} {other : Text}
    {held' : Nat} {level' : Bool}
    (allows : wider.enforced = true → limit.enforced = true ∧ limit.cap ≤ wider.cap)
    (shorter : held' ≤ held) :
    ∀ placement ∈ planFrom wider other held' level'
      (settledPieces lineEnding (planFrom limit indent held level pieces)),
      placement.indent? = none := by
  induction pieces generalizing held level held' level' with
  | nil => simp [planFrom]
  | cons piece others inductionHypothesis =>
      rw [planFrom]
      split
      · rename_i feed
        rw [settledPieces_cons, settled_of_stays rfl, planFrom, if_pos feed]
        simpa using inductionHypothesis (Nat.le_refl 1)
      · rename_i joined
        by_cases full : limit.enforced ∧ limit.cap ≤ held
        · rw [if_pos full, settledPieces_cons, planFrom, if_pos (feed_mem_settled rfl)]
          simpa using inductionHypothesis (Nat.succ_le_succ (Nat.zero_le held))
        · rw [if_neg full, settledPieces_cons, settled_of_stays rfl, planFrom, if_neg joined]
          have fitting : ¬ (wider.enforced = true ∧ wider.cap ≤ held') := by
            rintro ⟨enforced, full'⟩
            obtain ⟨before, cap⟩ := allows enforced
            exact full ⟨before, by omega⟩
          simpa [fitting] using inductionHypothesis (Nat.succ_le_succ shorter)

/-- The walk over the attributes of pieces finds the violations that are planned for them.

    The walk knows the line that the group starts on. It is the line of the pieces as long as no
    line feed stands behind the start of the group, and from then on it lies above it. -/
theorem violationsFrom_attributesAt (enforced : limit.enforced = true) {lineEnding : LineEnding}
    {front : Text} {anchor : Nat} {previous : Attribute}
    (stops : previous.stopLine = front.count '\n') (above : anchor ≤ front.count '\n')
    (flush : level = true ↔ front.count '\n' = anchor) :
    violationsFrom limit indent lineEnding anchor held previous (Piece.attributesAt front pieces) =
      violationsAt lineEnding front (planFrom limit indent held level pieces) := by
  induction pieces generalizing front anchor held level previous with
  | nil => rfl
  | cons piece others inductionHypothesis =>
      have starts : (piece.attributeAt front).startLine = (front ++ piece.gap).count '\n' := rfl
      have joins : previous.continues (piece.attributeAt front) = true ↔ '\n' ∉ piece.gap :=
        Attribute.continues_iff stops starts
      rw [Piece.attributesAt, violationsFrom, planFrom]
      by_cases joined : '\n' ∈ piece.gap
      · rw [if_neg (by simp [joins, joined]), if_pos joined, violationsAt, violations,
          List.nil_append]
        have grown : (front ++ piece.gap ++ piece.body).count '\n' =
            (front ++ piece.gap).count '\n' + piece.body.count '\n' := List.count_append
        refine inductionHypothesis rfl ?_ ?_
        · rw [starts, grown]
          omega
        · rw [starts, grown, decide_eq_true_iff, ← List.count_eq_zero]
          omega
      · have lone : piece.gap.count '\n' = 0 := List.count_eq_zero.mpr joined
        have line : (front ++ piece.gap).count '\n' = front.count '\n' := by
          rw [List.count_append, lone, Nat.add_zero]
        have later := @inductionHypothesis (held + 1) (level && decide ('\n' ∉ piece.body))
          (front ++ piece.gap ++ piece.body) anchor (piece.attributeAt front) rfl
          (by rw [List.count_append, line]; omega)
          (by
            rw [Bool.and_eq_true, flush, List.count_append, line, decide_eq_true_iff,
              ← List.count_eq_zero]
            omega)
        have same : (if (piece.attributeAt front).startLine = anchor then indent else []) =
            if level then indent else [] := by
          simp only [starts, line, flush]
        rw [if_pos (joins.mpr joined), if_neg joined, violationsAt, violations, later, same]
        by_cases full : limit.cap ≤ held <;> simp [enforced, full]

end Plan

namespace Layout

/-- The limit for the tag of a layout. -/
def limit (config : RuleConfig) (layout : Layout) : LineLimit :=
  config.limitFor layout.element.isMultiline

/-- The decisions about the pieces of a tag. The first attribute opens a group, so it stays. -/
def placements (config : RuleConfig) (layout : Layout) : List Placement :=
  match layout.pieces with
  | [] => []
  | first :: others =>
      ⟨first, none⟩ :: planFrom (layout.limit config) layout.element.indent 1
        (decide ('\n' ∉ first.body)) others

/-- There is a decision about each piece of the tag. -/
@[simp] theorem pieces_placements (config : RuleConfig) (layout : Layout) :
    Placement.pieces (layout.placements config) = layout.pieces := by
  unfold placements
  cases layout.pieces <;> simp

/-- A piece of a tag that moves has no line feed before it, and the indent behind its new line break
    is that of the tag, or there is none. -/
theorem moves_placements {config : RuleConfig} {layout : Layout} {placement : Placement}
    (member : placement ∈ layout.placements config) {indent : Text}
    (moves : placement.indent? = some indent) :
    '\n' ∉ placement.piece.gap ∧ (indent = layout.element.indent ∨ indent = []) := by
  unfold placements at member
  cases drawn : layout.pieces with
  | nil => simp [drawn] at member
  | cons first others =>
      simp only [drawn] at member
      rcases List.mem_cons.mp member with rfl | later
      · contradiction
      · exact moves_planFrom later moves

/-- The violations of a tag are those of the pieces that move. -/
theorem check_element (config : RuleConfig) (layout : Layout) :
    Rule.check config layout.element =
      violationsAt config.lineEnding layout.front (layout.placements config) := by
  cases drawn : layout.pieces with
  | nil =>
      have none : layout.element.attributes = [] := by simp [element, drawn]
      rw [Rule.check_nil config none]
      simp [placements, drawn, violationsAt]
  | cons first others =>
      have some : layout.element.attributes = layout.firstAttribute first ::
          Piece.attributesAt (layout.front ++ first.gap ++ first.body) others := by
        simp [element, drawn]
      have stops : (layout.firstAttribute first).stopLine =
          (layout.front ++ first.gap ++ first.body).count '\n' := rfl
      have starts : (layout.firstAttribute first).startLine =
          (layout.front ++ first.gap).count '\n' := rfl
      have planned : layout.placements config = ⟨first, none⟩ ::
          planFrom (layout.limit config) layout.element.indent 1 (decide ('\n' ∉ first.body))
            others := by
        simp [placements, drawn]
      have stays (front : Text) : Placement.violations config.lineEnding front ⟨first, none⟩ = [] :=
        rfl
      rw [Rule.check_cons config some, planned, violationsAt, stays, List.nil_append]
      split
      · rename_i enforced
        have grown : (layout.front ++ first.gap ++ first.body).count '\n' =
            (layout.front ++ first.gap).count '\n' + first.body.count '\n' := List.count_append
        refine violationsFrom_attributesAt enforced stops ?_ ?_
        · rw [starts, grown]
          omega
        · rw [starts, grown, decide_eq_true_iff, ← List.count_eq_zero]
          omega
      · rename_i free
        have unenforced : (layout.limit config).enforced = false := eq_false_of_ne_true free
        exact (violationsAt_eq_nil.mpr (planFrom_of_unenforced unenforced)).symm

end Layout

end TagWrap
