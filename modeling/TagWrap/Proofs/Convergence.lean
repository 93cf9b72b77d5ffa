import Mathlib.Tactic.Choose
import TagWrap.Proofs.Carry

/-!
# Fixing converges

A round of fixing makes all edits of the elements of a source and finds the tags again at the
places to which the edits carry them. What a round can leave behind is decided tag by tag. A tag
without violations stays as it is. A tag with violations has several lines afterwards, and its
groups hold no more than its limit allowed. So the only way to a violation in the next round is
that the tag stood on one line and that elements on several lines may hold less. Then the next
round measures it as an element on several lines, and the round after that finds nothing.
-/
namespace TagWrap

open Text

/-- No element may hold less on a line once it has several lines. -/
def RuleConfig.Steady (config : RuleConfig) : Prop :=
  (∃ cap, config.maximum = .flat cap) ∨
    (∃ single multi, config.maximum = .split single multi ∧ single ≤ multi) ∨
    config.scope = .multiline

/-- In a steady configuration the limit of an element does not get narrower when the element gets
    several lines. -/
theorem RuleConfig.Steady.cap_le {config : RuleConfig} (steady : config.Steady) {multiline : Bool}
    (enforced : (config.limitFor multiline).enforced = true) :
    (config.limitFor multiline).cap ≤ (config.limitFor true).cap := by
  cases multiline with
  | true => exact Nat.le_refl _
  | false =>
      rcases steady with ⟨cap, flat⟩ | ⟨single, multi, split, narrow⟩ | scope
      · simp [RuleConfig.limitFor, LineLimit.ofCap, flat, Maximum.capFor]
      · have caps : max single 1 ≤ max multi 1 := by omega
        simpa [RuleConfig.limitFor, LineLimit.ofCap, split, Maximum.capFor] using caps
      · simp [RuleConfig.limitFor, LineLimit.ofCap, scope, Scope.applies] at enforced

/-- The names of the attributes of an element. -/
def Element.names (element : Element) : List AttributeName := element.attributes.map Attribute.name

namespace Layout

variable {config : RuleConfig} {layout : Layout} {front back : Text}

/-- A tag has several lines when there is a line feed in it. -/
theorem isMultiline_iff : layout.element.isMultiline = true ↔ '\n' ∈ layout.inner := by
  have lines : layout.element.isMultiline =
      (layout.front.count '\n' != (layout.front ++ layout.inner).count '\n') := rfl
  rw [lines, bne_iff_ne, List.count_append, ← List.count_pos_iff]
  omega

/-- The names of the attributes are those of the pieces. -/
theorem names_element (layout : Layout) :
    layout.element.names = layout.pieces.map Piece.name := by
  have names (pieces : List Piece) (before : Text) :
      (Piece.attributesAt before pieces).map Attribute.name = pieces.map Piece.name := by
    induction pieces generalizing before with
    | nil => rfl
    | cons piece others inductionHypothesis =>
        rw [Piece.attributesAt, List.map_cons, inductionHypothesis, List.map_cons]
        rfl
  cases drawn : layout.pieces with
  | nil => simp [Element.names, element, drawn]
  | cons first others => simp [Element.names, element, drawn, names, firstAttribute]

/-- Settling keeps the names of the attributes. -/
theorem names_settle : (layout.settle config front back).element.names = layout.element.names := by
  rw [names_element, names_element]
  exact (Placement.map_name_settledPieces _ _).trans (by rw [pieces_placements])

/-- A tag has no violation exactly when none of its pieces moves. -/
theorem check_eq_nil_iff : Rule.check config layout.element = [] ↔
    ∀ placement ∈ layout.placements config, placement.indent? = none := by
  rw [check_element]
  exact Placement.violationsAt_eq_nil

/-- A tag with a violation has an enforced limit. -/
theorem enforced_of_moves (moves : Rule.check config layout.element ≠ []) :
    (layout.limit config).enforced = true := by
  by_contra free
  refine moves (check_eq_nil_iff.mpr ?_)
  intro placement member
  unfold placements at member
  cases drawn : layout.pieces with
  | nil => simp [drawn] at member
  | cons first others =>
      simp only [drawn] at member
      rcases List.mem_cons.mp member with rfl | later
      · rfl
      · exact planFrom_of_unenforced (eq_false_of_ne_true free) placement later

/-- A tag without violations keeps its text. -/
theorem inner_settle_of_stays (stays : Rule.check config layout.element = []) :
    (layout.settle config front back).inner = layout.inner := by
  have pieces : (layout.settle config front back).pieces = layout.pieces := by
    refine (Placement.settledPieces_of_stay (check_eq_nil_iff.mp stays)).trans ?_
    rw [pieces_placements]
  rw [inner, pieces]
  rfl

/-- A tag with a violation has several lines once it is settled. -/
theorem multiline_settle_of_moves (moves : Rule.check config layout.element ≠ []) :
    (layout.settle config front back).element.isMultiline = true := by
  obtain ⟨violation, found⟩ := List.exists_mem_of_ne_nil _ moves
  obtain ⟨before, placement, after, indent, placed, -, moved, -⟩ := exists_move found
  have feed : '\n' ∈ (placement.settled config.lineEnding).gap := Placement.feed_mem_settled moved
  have settled : (layout.settle config front back).pieces =
      Placement.settledPieces config.lineEnding before ++ placement.settled config.lineEnding ::
        Placement.settledPieces config.lineEnding after := by
    change Placement.settledPieces config.lineEnding (layout.placements config) = _
    rw [placed]
    simp [Placement.settledPieces]
  refine isMultiline_iff.mpr ?_
  rw [inner, settled]
  simp [feed]

/-- A settled tag has no violation under a limit that allows as much as the one it was settled
    under. -/
theorem check_settle_of_allows
    (allows : ((layout.settle config front back).limit config).enforced = true →
      (layout.limit config).enforced = true ∧
        (layout.limit config).cap ≤ ((layout.settle config front back).limit config).cap) :
    Rule.check config (layout.settle config front back).element = [] := by
  refine check_eq_nil_iff.mpr ?_
  intro placement member
  unfold placements at member
  cases drawn : layout.pieces with
  | nil =>
      have settled : (layout.settle config front back).pieces = [] := by
        simp [settle, placements, drawn]
      simp [settled] at member
  | cons first others =>
      have settled : (layout.settle config front back).pieces =
          first :: Placement.settledPieces config.lineEnding (planFrom (layout.limit config)
            layout.element.indent 1 (decide ('\n' ∉ first.body)) others) := by
        simp [settle, placements, drawn, Placement.settled]
      simp only [settled] at member
      rcases List.mem_cons.mp member with rfl | later
      · rfl
      · exact planFrom_settledPieces allows (Nat.le_refl 1) placement later

/-- One round settles a tag for good when the configuration is steady, when the tag has several
    lines already, or when it has no violation. -/
theorem check_settle (steady : config.Steady ∨ layout.element.isMultiline = true ∨
    Rule.check config layout.element = []) :
    Rule.check config (layout.settle config front back).element = [] := by
  by_cases moves : Rule.check config layout.element = []
  · refine check_settle_of_allows fun enforced => ?_
    have same : (layout.settle config front back).limit config = layout.limit config := by
      have lines : (layout.settle config front back).element.isMultiline =
          layout.element.isMultiline := by
        rw [Bool.eq_iff_iff, isMultiline_iff, isMultiline_iff, inner_settle_of_stays moves]
      rw [limit, lines, limit]
    rw [same] at enforced ⊢
    exact ⟨enforced, Nat.le_refl _⟩
  · have enforced := enforced_of_moves moves
    refine check_settle_of_allows fun _ => ⟨enforced, ?_⟩
    rw [limit, limit, multiline_settle_of_moves moves]
    rcases steady with settled | lines | stays
    · exact settled.cap_le enforced
    · exact Nat.le_of_eq (by rw [lines])
    · exact absurd stays moves

/-- After one round each tag has several lines or no violation. -/
theorem settled_once :
    (layout.settle config front back).element.isMultiline = true ∨
      Rule.check config (layout.settle config front back).element = [] := by
  by_cases moves : Rule.check config layout.element = []
  · exact Or.inr (check_settle (Or.inr (Or.inr moves)))
  · exact Or.inl (multiline_settle_of_moves moves)

end Layout

/-- One round of fixing: all edits of the elements of a source are made, and the tags are resolved
    again at the places to which the edits carry them. -/
structure Round (config : RuleConfig) (source : Text) (tags : List TagRanges)
    (elements : List Element) (fixed : Text) (carried : List TagRanges)
    (settled : List Element) : Prop where
  applied : Edit.applyAll source ((Rule.checkAll config elements).map Violation.edit) = .ok fixed
  moved : carried =
    tags.map (TagRanges.carry ((Rule.checkAll config elements).map Violation.edit))
  accepted : List.Forall₂ (TagRanges.Accepted fixed) carried settled
  names : settled.map Element.names = elements.map Element.names

namespace Layout

variable {config : RuleConfig} {source : Text} {layouts : List Layout}

/-- The edits of tags that stand beside each other do not reach across the end of a tag. -/
theorem clear_of_beside (beside : (layouts.map ranges).Pairwise TagRanges.Beside)
    {layout : Layout} (listed : layout ∈ layouts) :
    ∀ edit ∈ allEdits config layouts,
      edit.stop ≤ layout.ranges.tag.stop ∨ layout.ranges.tag.stop ≤ edit.start := by
  have own : ∀ other ∈ layouts, ∀ edit ∈ other.edits config,
      edit.stop ≤ other.ranges.tag.stop ∨ other.ranges.tag.stop ≤ edit.start :=
    fun other _ edit member => Or.inl (Nat.le_of_lt (edit_inside member).2.2)
  have apart {first second : Layout} (pair : first.ranges.Beside second.ranges) :
      ∀ edit ∈ first.edits config,
        edit.stop ≤ second.ranges.tag.stop ∨ second.ranges.tag.stop ≤ edit.start := by
    intro edit member
    have inside := edit_inside member
    have runs : second.ranges.tag.start ≤ second.ranges.tag.stop := second.tag_runs
    rcases pair with ahead | behind
    · exact Or.inl (by omega)
    · exact Or.inr (by omega)
  have pairs := List.pairwise_map.mp beside
  intro edit member
  obtain ⟨other, place, mine⟩ := List.mem_flatMap.mp member
  exact List.Pairwise.forall_of_forall_of_flip own (pairs.imp apart)
    (pairs.imp fun pair => apart pair.symm) place listed edit mine

/-- Carried tags still stand beside each other. -/
theorem beside_carry {fixed : Text}
    (beside : (layouts.map ranges).Pairwise TagRanges.Beside)
    (applied : Edit.applyAll source (allEdits config layouts) = .ok fixed) :
    ((layouts.map ranges).map (TagRanges.carry (allEdits config layouts))).Pairwise
      TagRanges.Beside := by
  obtain ⟨ordered, same, -, spliced⟩ := Edit.applyAll_eq_ok_iff.mp applied
  have carried {first second : Layout} (listed : first ∈ layouts)
      (ahead : first.ranges.tag.stop ≤ second.ranges.tag.start) :
      Edit.carry (allEdits config layouts) first.ranges.tag.stop ≤
        Edit.carry (allEdits config layouts) second.ranges.tag.start := by
    rw [← Edit.carry_perm same, ← Edit.carry_perm same]
    refine Edit.carry_le_carry spliced.ordered ?_ ?_ ahead
    · intro edit member
      exact (spliced.bounds edit member).2.1
    · intro edit member
      exact clear_of_beside beside listed edit (same.mem_iff.mp member)
  rw [List.map_map, List.pairwise_map]
  refine (List.pairwise_map.mp beside).imp_of_mem ?_
  intro first second firstListed secondListed apart
  rcases apart with ahead | behind
  · exact Or.inl (carried firstListed ahead)
  · exact Or.inr (carried secondListed behind)

/-- A round of fixing can be made wherever tags stand beside each other, and it settles each of
    them. -/
theorem exists_round (config : RuleConfig) (drawn : ∀ layout ∈ layouts, layout.source = source)
    (beside : (layouts.map ranges).Pairwise TagRanges.Beside) :
    ∃ (fixed : Text) (settled : List Layout),
      Round config source (layouts.map ranges) (layouts.map element) fixed
        (settled.map ranges) (settled.map element) ∧
      (∀ after ∈ settled, after.source = fixed) ∧
      (settled.map ranges).Pairwise TagRanges.Beside ∧
      ∀ after ∈ settled, ∃ before ∈ layouts, ∃ front back,
        after = before.settle config front back := by
  have arranged : (layouts.map ranges).Pairwise TagRanges.Arranged := beside.imp Or.inl
  obtain ⟨fixed, applied⟩ := Edit.applyAll_isOk_iff.mpr
    ⟨@allEdits_fit config source layouts drawn, allEdits_apart arranged⟩
  have found : ∀ layout ∈ layouts, ∃ after : Layout, after.source = fixed ∧
      after.ranges = layout.ranges.carry (allEdits config layouts) ∧
      after.element.names = layout.element.names ∧
      ∃ front back, after = layout.settle config front back := by
    intro layout listed
    obtain ⟨front, back, whole, carried⟩ := exists_settled drawn beside applied listed
    exact ⟨layout.settle config front back, whole, carried, names_settle, front, back, rfl⟩
  have : Nonempty Layout := ⟨⟨[], [], [], [], by simp⟩⟩
  choose! after sources carried names settles using found
  have tags : (layouts.map after).map ranges =
      (layouts.map ranges).map (TagRanges.carry (allEdits config layouts)) := by
    rw [List.map_map, List.map_map]
    exact List.map_congr_left carried
  have drawnAfter : ∀ settled ∈ layouts.map after, settled.source = fixed := by
    intro settled member
    obtain ⟨layout, listed, rfl⟩ := List.mem_map.mp member
    exact sources layout listed
  refine ⟨fixed, layouts.map after, ⟨?_, ?_, ?_, ?_⟩, drawnAfter, ?_, ?_⟩
  · rw [edits_checkAll]
    exact applied
  · rw [edits_checkAll]
    exact tags
  · exact forall₂_accepted drawnAfter
  · rw [List.map_map, List.map_map, List.map_map]
    exact List.map_congr_left names
  · rw [tags]
    exact beside_carry beside applied
  · intro settled member
    obtain ⟨layout, listed, rfl⟩ := List.mem_map.mp member
    exact ⟨layout, listed, settles layout listed⟩

end Layout

/-- Fixing converges where the tags of a source stand beside each other. In a steady configuration
    one round leaves no violation behind, and in every configuration two rounds do. -/
theorem fix_converges {source : Text} {tags : List TagRanges} {elements : List Element}
    {config : RuleConfig} (accepted : List.Forall₂ (TagRanges.Accepted source) tags elements)
    (beside : tags.Pairwise TagRanges.Beside) :
    ∃ fixed carried settled, Round config source tags elements fixed carried settled ∧
      (config.Steady → Rule.checkAll config settled = []) ∧
      ∃ fixed' carried' settled', Round config fixed carried settled fixed' carried' settled' ∧
        Rule.checkAll config settled' = [] := by
  obtain ⟨layouts, drawn, rfl, rfl⟩ := Layout.exists_layouts accepted
  obtain ⟨fixed, once, firstRound, drawnOnce, besideOnce, settledOnce⟩ :=
    Layout.exists_round config drawn beside
  obtain ⟨fixed', twice, secondRound, -, -, settledTwice⟩ :=
    Layout.exists_round config drawnOnce besideOnce
  refine ⟨fixed, once.map Layout.ranges, once.map Layout.element, firstRound, ?_, fixed',
    twice.map Layout.ranges, twice.map Layout.element, secondRound, ?_⟩
  · intro steady
    refine List.flatMap_eq_nil_iff.mpr fun element member => ?_
    obtain ⟨after, listed, rfl⟩ := List.mem_map.mp member
    obtain ⟨before, -, front, back, rfl⟩ := settledOnce after listed
    exact Layout.check_settle (Or.inl steady)
  · refine List.flatMap_eq_nil_iff.mpr fun element member => ?_
    obtain ⟨after, listed, rfl⟩ := List.mem_map.mp member
    obtain ⟨middle, between, front, back, rfl⟩ := settledTwice after listed
    obtain ⟨before, -, front', back', rfl⟩ := settledOnce middle between
    exact Layout.check_settle (Or.inr Layout.settled_once)

/-- Two tags on one line, where elements on several lines hold less than those on one: the first
    round gives the first tag a second line, and the second round settles it. -/
theorem fix_converges_two_tags :
    let config : RuleConfig := ⟨.split 2 1, .always, .lf⟩
    let source := "<A b c d> <E f g>".toList
    let tags : List TagRanges :=
      [⟨⟨0, 9⟩, [⟨3, 4⟩, ⟨5, 6⟩, ⟨7, 8⟩]⟩, ⟨⟨10, 17⟩, [⟨13, 14⟩, ⟨15, 16⟩]⟩]
    ∃ elements, List.Forall₂ (TagRanges.Accepted source) tags elements ∧
      tags.Pairwise TagRanges.Beside ∧ ¬ config.Steady ∧
      ∃ fixed carried settled, Round config source tags elements fixed carried settled ∧
        ∃ fixed' carried' settled', Round config fixed carried settled fixed' carried' settled' ∧
          Rule.checkAll config settled' = [] := by
  intro config source tags
  have accepted : ∃ elements, List.Forall₂ (TagRanges.Accepted source) tags elements :=
    ⟨_, .cons rfl (.cons rfl .nil)⟩
  have beside : tags.Pairwise TagRanges.Beside := List.pairwise_pair.mpr (Or.inl (by decide))
  have unsteady : ¬ config.Steady := by
    rintro (⟨cap, flat⟩ | ⟨single, multi, split, narrow⟩ | scope)
    · contradiction
    · cases split
      contradiction
    · contradiction
  obtain ⟨elements, built⟩ := accepted
  obtain ⟨fixed, carried, settled, first, -, second⟩ := @fix_converges _ _ _ config built beside
  exact ⟨elements, built, beside, unsteady, fixed, carried, settled, first, second⟩

end TagWrap
