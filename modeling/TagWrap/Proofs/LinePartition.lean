import TagWrap.Proofs.Excess
import TagWrap.Proofs.Placement

/-!
# The groups are the only partition into lines

The groups of a tag are described by the source alone. They cut the attributes into runs, none of
them empty, and two attributes in a row stand in one run exactly when no line feed stands between
them in the source. Only one partition does that (`groups_are_line_partition`), and the line of a
group is the number of line feeds before its first attribute.

Two facts meet here. Which run a position falls into determines the runs, for any relation of
neighbours (`joined_iff_splitBy`). And the lines that the index finds for the end of an attribute
and the start of the next one are equal exactly when the text between them has no line feed
(`Attribute.Follows.exists_between`), since each of them counts the line feeds before its place.
-/
namespace TagWrap

open Text

section Runs

variable {Item : Type}

/-- The number of the run that a position of the items in a row falls into. -/
def runAt : List (List Item) → Nat → Nat
  | [], _ => 0
  | run :: runs, position =>
      if position < run.length then 0 else runAt runs (position - run.length) + 1

variable {run : List Item} {runs : List (List Item)} {position : Nat}

/-- The first positions fall into the first run. -/
theorem runAt_of_lt (early : position < run.length) : runAt (run :: runs) position = 0 :=
  if_pos early

/-- The positions behind the first run fall into the other runs. -/
theorem runAt_add (run : List Item) (runs : List (List Item)) (position : Nat) :
    runAt (run :: runs) (run.length + position) = runAt runs position + 1 := by
  rw [runAt, if_neg (by omega), Nat.add_sub_cancel_left]

/-- At the first positions stand the items of the first run. -/
theorem getElem?_flatten_of_lt (early : position < run.length) :
    (run :: runs).flatten[position]? = some run[position] := by
  rw [List.flatten_cons, List.getElem?_append_left early, List.getElem?_eq_getElem early]

/-- At the positions behind the first run stand the items of the other runs. -/
theorem getElem?_flatten_add (run : List Item) (runs : List (List Item)) (position : Nat) :
    (run :: runs).flatten[run.length + position]? = runs.flatten[position]? := by
  rw [List.flatten_cons, List.getElem?_append_right (by omega), Nat.add_sub_cancel_left]

/-- Directly behind the first run stands the first item of the other runs. -/
theorem getElem?_flatten_length : (run :: runs).flatten[run.length]? = runs.flatten.head? := by
  rw [List.head?_eq_getElem?]
  exact getElem?_flatten_add run runs 0

/-- Two items in a row stand in one run exactly when they are related. -/
def Joined (related : Item → Item → Prop) (runs : List (List Item)) : Prop :=
  ∀ position previous next, runs.flatten[position]? = some previous →
    runs.flatten[position + 1]? = some next →
    (runAt runs position = runAt runs (position + 1) ↔ related previous next)

variable {related : Item → Item → Prop}

/-- The last item of a run and the one behind it do not stand in one run. -/
theorem runAt_border (border : position + 1 = run.length) :
    ¬ runAt (run :: runs) position = runAt (run :: runs) (position + 1) := by
  have behind : runAt (run :: runs) run.length = runAt runs 0 + 1 := runAt_add run runs 0
  rw [border, behind, runAt_of_lt (by omega)]
  omega

/-- A run in front is joined to no other run, so its own items are related, its last item is not
    related to the item behind it, and the runs behind it are on their own. -/
theorem joined_cons (filled : run ≠ []) :
    Joined related (run :: runs) ↔ run.IsChain related ∧
      (∀ next ∈ runs.flatten.head?, ¬ related (run.getLast filled) next) ∧
      Joined related runs := by
  constructor
  · intro joined
    refine ⟨?chain, ?last, ?others⟩
    case chain =>
      refine List.isChain_iff_getElem.mpr fun position inside => ?_
      have early : position < run.length := by omega
      apply (joined position _ _ (getElem?_flatten_of_lt early)
        (getElem?_flatten_of_lt inside)).mp
      rw [runAt_of_lt early, runAt_of_lt inside]
    case last =>
      intro next first together
      obtain ⟨position, border⟩ : ∃ position, position + 1 = run.length :=
        ⟨run.length - 1, Nat.sub_add_cancel (List.length_pos_iff.mpr filled)⟩
      have follows : (run :: runs).flatten[position + 1]? = some next := by
        rw [border, getElem?_flatten_length]
        exact first
      have last : run.getLast filled = run[position] := by
        simp [List.getLast_eq_getElem, ← border]
      rw [last] at together
      have same := (joined position _ next (getElem?_flatten_of_lt (by omega)) follows).mpr together
      exact runAt_border border same
    case others =>
      intro position previous next first second
      have shifted := joined (run.length + position) previous next
        (by rw [getElem?_flatten_add, first])
        (by rw [Nat.add_assoc, getElem?_flatten_add, second])
      rw [← shifted, Nat.add_assoc, runAt_add, runAt_add, Nat.add_right_cancel_iff]
  · rintro ⟨chain, last, joined⟩ position previous next first second
    rcases Nat.lt_trichotomy (position + 1) run.length with inside | border | outside
    · have early : position < run.length := by omega
      rw [getElem?_flatten_of_lt early, Option.some_inj] at first
      rw [getElem?_flatten_of_lt inside, Option.some_inj] at second
      subst first second
      apply iff_of_true
      · rw [runAt_of_lt early, runAt_of_lt inside]
      · exact List.isChain_iff_getElem.mp chain position inside
    · rw [getElem?_flatten_of_lt (by omega), Option.some_inj] at first
      rw [border, getElem?_flatten_length] at second
      apply iff_of_false (runAt_border border)
      have apart := last next second
      simpa [List.getLast_eq_getElem, ← first, ← border] using apart
    · obtain ⟨later, rfl⟩ : ∃ later, position = run.length + later :=
        ⟨position - run.length, by omega⟩
      rw [getElem?_flatten_add] at first
      rw [Nat.add_assoc, getElem?_flatten_add] at second
      rw [Nat.add_assoc, runAt_add, runAt_add, Nat.add_right_cancel_iff]
      exact joined later previous next first second

/-- Runs are joined by a relation exactly when each run is a chain of it and none of them goes on
    in the run behind it. The induction is on the runs, each in front of the ones behind it. -/
theorem joined_iff_chains {related : Item → Item → Bool} (filled : ∀ run ∈ runs, run ≠ []) :
    Joined (fun previous next => related previous next = true) runs ↔
      (∀ run ∈ runs, run.IsChain fun previous next => related previous next = true) ∧
      runs.IsChain fun run next => ∃ (last : run ≠ []) (first : next ≠ []),
        related (run.getLast last) (next.head first) = false := by
  induction runs with
  | nil => simp [Joined]
  | cons run others inductionHypothesis =>
      have own : run ≠ [] := filled run List.mem_cons_self
      have later : ∀ other ∈ others, other ≠ [] :=
        fun other listed => filled other (List.mem_cons_of_mem run listed)
      have border : (∀ next ∈ others.flatten.head?, ¬ related (run.getLast own) next = true) ↔
          ∀ other ∈ others.head?, ∃ (last : run ≠ []) (first : other ≠ []),
            related (run.getLast last) (other.head first) = false := by
        cases others with
        | nil => simp
        | cons other rest =>
            have first : other ≠ [] := later other List.mem_cons_self
            simp [List.head?_append_of_ne_nil _ first, List.head?_eq_some_head first, own, first]
      rw [joined_cons own, inductionHypothesis later, border, List.forall_mem_cons,
        List.isChain_cons]
      constructor
      · rintro ⟨chain, apart, chains, parted⟩
        exact ⟨⟨chain, chains⟩, apart, parted⟩
      · rintro ⟨⟨chain, chains⟩, apart, parted⟩
        exact ⟨chain, apart, chains, parted⟩

/-- Runs are joined by a relation exactly when they are those that it splits the items into. -/
theorem joined_iff_splitBy {related : Item → Item → Bool} (filled : ∀ run ∈ runs, run ≠ []) :
    Joined (fun previous next => related previous next = true) runs ↔
      runs = runs.flatten.splitBy related := by
  have none_empty : [] ∉ runs := fun empty => filled [] empty rfl
  rw [eq_comm, List.splitBy_eq_iff, and_iff_right rfl, and_iff_right none_empty]
  exact joined_iff_chains filled

end Runs

/-- The runs are a partition of attributes into lines. They are not empty, they make up the
    attributes in order, and the source between two attributes in a row says whether the two stand
    in one run. -/
structure LinePartition (source : Text) (attributes : List Attribute)
    (runs : List (List Attribute)) : Prop where
  whole : runs.flatten = attributes
  filled : ∀ run ∈ runs, run ≠ []
  joined : ∀ position previous next, attributes[position]? = some previous →
    attributes[position + 1]? = some next →
    ∃ between, slice? source previous.span.stop.offset next.span.start.offset = some between ∧
      (runAt runs position = runAt runs (position + 1) ↔ '\n' ∉ between)

/-- An attribute stands behind another on a source, with some text between the two. -/
def Attribute.Follows (source : Text) (previous next : Attribute) : Prop :=
  ∃ front between back, source = front ++ between ++ back ∧
    previous.span.stop = .behind front ∧ next.span.start = .behind (front ++ between)

/-- The text between two attributes says whether the second stands on the line where the first
    ends. -/
theorem Attribute.Follows.exists_between {source : Text} {previous next : Attribute}
    (follows : previous.Follows source next) :
    ∃ between, slice? source previous.span.stop.offset next.span.start.offset = some between ∧
      (previous.continues next = true ↔ '\n' ∉ between) := by
  obtain ⟨front, between, back, rfl, stops, starts⟩ := follows
  have ended : previous.stopLine = front.count '\n' := congrArg Position.line stops
  have begun : next.startLine = (front ++ between).count '\n' := congrArg Position.line starts
  refine ⟨between, ?_, continues_iff ended begun⟩
  rw [stops, starts]
  exact slice?_append front between back

/-- The attributes of pieces stand one behind the other. -/
theorem Piece.follow_attributesAt {source front back : Text} {previous : Attribute}
    {pieces : List Piece} (stops : previous.span.stop = .behind front)
    (whole : source = front ++ flat pieces ++ back) :
    (previous :: attributesAt front pieces).IsChain (Attribute.Follows source) := by
  induction pieces generalizing front previous with
  | nil => exact List.isChain_singleton previous
  | cons piece others inductionHypothesis =>
      have cut : source =
          front ++ piece.gap ++ piece.body ++ flat others ++ back := by
        simpa using whole
      refine List.isChain_cons_cons.mpr ⟨?_, inductionHypothesis rfl cut⟩
      refine ⟨front, piece.gap, piece.body ++ flat others ++ back, ?_, stops, rfl⟩
      simpa using cut

/-- Each attribute of pieces starts behind a part of the source. -/
theorem Piece.exists_start {front : Text} {pieces : List Piece} {attr : Attribute}
    (member : attr ∈ attributesAt front pieces) :
    ∃ before after, front ++ flat pieces = before ++ after ∧
      attr.span.start = .behind before := by
  induction pieces generalizing front with
  | nil => simp [attributesAt] at member
  | cons piece others inductionHypothesis =>
      rcases List.mem_cons.mp member with rfl | later
      · exact ⟨front ++ piece.gap, piece.body ++ flat others, by simp, rfl⟩
      · obtain ⟨before, after, cut, starts⟩ := inductionHypothesis later
        exact ⟨before, after, by simpa using cut, starts⟩

namespace Layout

/-- The attributes of a tag stand one behind the other. -/
theorem follow_attributes (layout : Layout) :
    layout.element.attributes.IsChain (Attribute.Follows layout.source) := by
  cases drawn : layout.pieces with
  | nil => simp [element, drawn]
  | cons first others =>
      have listed : layout.element.attributes = layout.firstAttribute first ::
          Piece.attributesAt (layout.front ++ first.gap ++ first.body) others := by
        simp [element, drawn]
      have whole : layout.source = layout.front ++ first.gap ++ first.body ++ Piece.flat others ++
          (layout.tail ++ layout.back) := by
        simp [source, inner, drawn]
      rw [listed]
      exact Piece.follow_attributesAt rfl whole

/-- Each attribute of a tag starts behind a part of the source. -/
theorem exists_attribute_start {layout : Layout} {attr : Attribute}
    (member : attr ∈ layout.element.attributes) :
    ∃ before after, layout.source = before ++ after ∧ attr.span.start = .behind before := by
  cases drawn : layout.pieces with
  | nil => simp [element, drawn] at member
  | cons first others =>
      simp only [element, drawn] at member
      rcases List.mem_cons.mp member with rfl | later
      · refine ⟨layout.front ++ first.gap,
          first.body ++ Piece.flat others ++ layout.tail ++ layout.back, ?_, rfl⟩
        simp [source, inner, drawn]
      · obtain ⟨before, after, cut, starts⟩ := Piece.exists_start later
        refine ⟨before, after ++ layout.tail ++ layout.back, ?_, starts⟩
        simp [source, inner, drawn, ← List.append_assoc, ← cut]

end Layout

/-- Attributes that stand one behind the other have one partition into lines, and it is the
    splitting where an attribute does not continue the line of the one before it. -/
theorem linePartition_iff {source : Text} {attributes : List Attribute}
    (follow : attributes.IsChain (Attribute.Follows source)) {runs : List (List Attribute)} :
    LinePartition source attributes runs ↔ runs = attributes.splitBy Attribute.continues := by
  have between {position : Nat} {previous next : Attribute}
      (first : attributes[position]? = some previous)
      (second : attributes[position + 1]? = some next) :
      ∃ text, slice? source previous.span.stop.offset next.span.start.offset = some text ∧
        (previous.continues next = true ↔ '\n' ∉ text) := by
    obtain ⟨early, rfl⟩ := List.getElem?_eq_some_iff.mp first
    obtain ⟨inside, rfl⟩ := List.getElem?_eq_some_iff.mp second
    exact (List.isChain_iff_getElem.mp follow position inside).exists_between
  constructor
  · rintro ⟨rfl, filled, joined⟩
    refine (joined_iff_splitBy filled).mp fun position previous next first second => ?_
    obtain ⟨text, found, continues⟩ := between first second
    obtain ⟨text', found', together⟩ := joined position previous next first second
    obtain rfl : text = text' := Option.some.inj (found.symm.trans found')
    exact together.trans continues.symm
  · rintro rfl
    have filled : ∀ run ∈ attributes.splitBy Attribute.continues, run ≠ [] :=
      fun run listed => List.ne_nil_of_mem_splitBy listed
    have whole : (attributes.splitBy Attribute.continues).flatten = attributes :=
      List.flatten_splitBy _ _
    refine ⟨whole, filled, fun position previous next first second => ?_⟩
    obtain ⟨text, found, continues⟩ := between first second
    refine ⟨text, found, ?_⟩
    rw [← continues]
    refine (joined_iff_splitBy filled).mpr (by rw [whole]) position previous next ?_ ?_
    · rw [whole, first]
    · rw [whole, second]

/-- The first attribute of a group is one of the attributes. -/
theorem first_mem_of_mem_groupByLine {attributes : List Attribute} {group : LineGroup}
    (listed : group ∈ groupByLine attributes) : group.first ∈ attributes := by
  have run : group.attributes ∈ attributes.splitBy Attribute.continues := by
    rw [← attributes_groupByLine]
    exact List.mem_map_of_mem listed
  rw [← List.flatten_splitBy Attribute.continues attributes]
  exact List.mem_flatten.mpr ⟨group.attributes, run, List.mem_cons_self⟩

/-- The groups of an accepted tag are the only partition of its attributes into lines, and the line
    of a group is the number of line feeds before its first attribute. -/
theorem groups_are_line_partition {source : Text} {ranges : TagRanges} {element : Element}
    (accepted : ranges.Accepted source element) :
    (∀ runs, LinePartition source element.attributes runs ↔
      runs = (groupByLine element.attributes).map LineGroup.attributes) ∧
    ∀ group ∈ groupByLine element.attributes,
      ∃ front, slice? source 0 group.first.span.start.offset = some front ∧
        group.line = front.count '\n' := by
  obtain ⟨layout, rfl, -, rfl⟩ := Layout.accepted_iff.mp accepted
  refine ⟨fun runs => ?_, fun group listed => ?_⟩
  · rw [attributes_groupByLine]
    exact linePartition_iff layout.follow_attributes
  · obtain ⟨front, back, whole, starts⟩ :=
      Layout.exists_attribute_start (first_mem_of_mem_groupByLine listed)
    refine ⟨front, ?_, congrArg Position.line starts⟩
    rw [starts]
    exact slice?_eq_some.mpr ⟨[], back, whole, rfl, Nat.zero_add _⟩

/-- The value of the first attribute ends on the second line, so the second attribute stands in the
    run of the first, and the third begins a run on the third line. -/
theorem groups_are_line_partition_long_value :
    let source := "<A b=\x7b\n\x7d c\n d>".toList
    ∃ element, TagRanges.Accepted source ⟨⟨0, 14⟩, [⟨3, 8⟩, ⟨9, 10⟩, ⟨12, 13⟩]⟩ element ∧
      (∀ runs, LinePartition source element.attributes runs ↔
        runs = [element.attributes.take 2, element.attributes.drop 2]) ∧
      ∀ group ∈ groupByLine element.attributes, group.line = 0 ∨ group.line = 2 := by
  intro source
  have drawn : ∃ element,
      TagRanges.Accepted source ⟨⟨0, 14⟩, [⟨3, 8⟩, ⟨9, 10⟩, ⟨12, 13⟩]⟩ element ∧
      (groupByLine element.attributes).map LineGroup.attributes =
        [element.attributes.take 2, element.attributes.drop 2] ∧
      (groupByLine element.attributes).all (fun group =>
        group.first.span.start.offset = 3 ∨ group.first.span.start.offset = 12) = true :=
    ⟨_, rfl, by decide +kernel, by decide +kernel⟩
  obtain ⟨element, accepted, cut, begins⟩ := drawn
  obtain ⟨unique, lines⟩ := groups_are_line_partition accepted
  refine ⟨element, accepted, fun runs => ?_, fun group listed => ?_⟩
  · rw [unique, cut]
  · obtain ⟨front, found, counted⟩ := lines group listed
    have starts := of_decide_eq_true (List.all_eq_true.mp begins group listed)
    rw [counted]
    rcases starts with start | start
    · rw [start] at found
      cases found
      exact Or.inl rfl
    · rw [start] at found
      cases found
      exact Or.inr rfl

end TagWrap
