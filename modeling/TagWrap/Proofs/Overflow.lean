import TagWrap.Rule

/-!
# Violations found in one walk

The rule first splits the attributes into groups and then lists what each group holds too much.
The same violations are found by one walk over the attributes that remembers the attribute
before, the line that its group starts on and the number of attributes that the group holds so
far. The walk looks at one attribute at a time, so what it does can be followed along a row of
attributes in the source.
-/
namespace TagWrap

/-- The violations of attributes in a row behind the attribute `previous`, whose group starts on
    the line `anchor` and holds `held` attributes so far. -/
def violationsFrom (limit : LineLimit) (indent : Text) (lineEnding : LineEnding) :
    (anchor held : Nat) → Attribute → List Attribute → List Violation
  | _, _, _, [] => []
  | anchor, held, previous, attr :: others =>
      if previous.continues attr then
        let later := violationsFrom limit indent lineEnding anchor (held + 1) attr others
        if limit.cap ≤ held then
          breakBefore lineEnding (if attr.startLine = anchor then indent else []) attr :: later
        else later
      else violationsFrom limit indent lineEnding attr.startLine 1 attr others

/-- A limit always leaves room for one attribute. -/
theorem RuleConfig.limitFor_cap_pos (config : RuleConfig) (multiline : Bool) :
    1 ≤ (config.limitFor multiline).cap :=
  Nat.le_max_right _ 1

/-- The first group of a row starts with its first attribute. -/
theorem exists_groupByLine (first : Attribute) (others : List Attribute) :
    ∃ run groups, groupByLine (first :: others) = ⟨first, run⟩ :: groups := by
  have opened : groupByLine (first :: others) = LineGroup.prepend first (groupByLine others) := rfl
  rw [opened]
  cases groupByLine others with
  | nil => exact ⟨[], [], rfl⟩
  | cons group groups =>
      by_cases joined : first.continues group.first = true
      · exact ⟨group.attributes, groups, by simp [LineGroup.prepend, joined]⟩
      · exact ⟨[], group :: groups, by simp [LineGroup.prepend, joined]⟩

/-- One more attribute in front of a row joins the first group or makes up a group of its own. -/
theorem groupByLine_cons {previous attr : Attribute} {others run : List Attribute}
    {groups : List LineGroup} (grouped : groupByLine (attr :: others) = ⟨attr, run⟩ :: groups) :
    groupByLine (previous :: attr :: others) =
      if previous.continues attr then ⟨previous, attr :: run⟩ :: groups
      else ⟨previous, []⟩ :: ⟨attr, run⟩ :: groups := by
  have opened : groupByLine (previous :: attr :: others) =
      LineGroup.prepend previous (groupByLine (attr :: others)) := rfl
  rw [opened, grouped]
  rfl

/-- The violations of a group are those of its attributes from the cap on. A group that is not too
    long has no such attributes. -/
theorem LineGroup.violations_eq_drop {limit : LineLimit} (enforced : limit.enforced = true)
    (indent : Text) (lineEnding : LineEnding) (group : LineGroup) :
    group.violations limit indent lineEnding =
      (group.attributes.drop limit.cap).map fun attr =>
        breakBefore lineEnding (group.indentFor indent attr) attr := by
  rw [violations]
  split
  · rename_i fitting
    have short : group.attributes.length ≤ limit.cap := by
      simp only [LineLimit.excess, enforced, if_true, length] at fitting
      omega
    rw [List.drop_of_length_le short, List.map_nil]
  · rfl

/-- The first attribute of a group stays in its place, since every limit leaves room for it. -/
theorem LineGroup.violations_eq {limit : LineLimit} (enforced : limit.enforced = true)
    (room : 1 ≤ limit.cap) (indent : Text) (lineEnding : LineEnding) (group : LineGroup) :
    group.violations limit indent lineEnding =
      (group.rest.drop (limit.cap - 1)).map fun attr =>
        breakBefore lineEnding (group.indentFor indent attr) attr := by
  obtain ⟨before, cap⟩ : ∃ before, limit.cap = before + 1 := ⟨limit.cap - 1, by omega⟩
  rw [violations_eq_drop enforced, cap]
  rfl

/-- What the walk finds is what the group of `previous` holds too much, and then the violations
    of the other groups.

    The induction is on the attributes still ahead. While an attribute joins the group, the count
    of the walk and the number of attributes to skip move together. When one does not, the walk
    starts over with a group that holds one attribute. -/
theorem violationsFrom_eq {limit : LineLimit} (enforced : limit.enforced = true)
    (room : 1 ≤ limit.cap) (indent : Text) (lineEnding : LineEnding) {anchor held : Nat}
    {previous : Attribute} {others run : List Attribute} {groups : List LineGroup}
    (grouped : groupByLine (previous :: others) = ⟨previous, run⟩ :: groups) :
    violationsFrom limit indent lineEnding anchor held previous others =
      ((run.drop (limit.cap - held)).map fun attr =>
        breakBefore lineEnding (if attr.startLine = anchor then indent else []) attr) ++
      planBreaks limit groups indent lineEnding := by
  induction others generalizing anchor held previous run groups with
  | nil =>
      obtain ⟨rfl, rfl⟩ : [] = run ∧ [] = groups := by
        simpa [groupByLine, LineGroup.prepend] using grouped
      simp [violationsFrom, planBreaks]
  | cons attr others inductionHypothesis =>
      obtain ⟨later, rest, remaining⟩ := exists_groupByLine attr others
      rw [groupByLine_cons remaining] at grouped
      by_cases joined : previous.continues attr = true
      · rw [if_pos joined] at grouped
        obtain ⟨rfl, rfl⟩ : attr :: later = run ∧ rest = groups := by simpa using grouped
        rw [violationsFrom, if_pos joined, inductionHypothesis remaining]
        by_cases full : limit.cap ≤ held
        · rw [if_pos full, Nat.sub_eq_zero_of_le full, Nat.sub_eq_zero_of_le (by omega)]
          rfl
        · obtain ⟨ahead, left⟩ : ∃ ahead, limit.cap - held = ahead + 1 :=
            ⟨limit.cap - held - 1, by omega⟩
          rw [if_neg full, left, List.drop_succ_cons, show limit.cap - (held + 1) = ahead by omega]
      · rw [if_neg joined] at grouped
        obtain ⟨rfl, rfl⟩ : [] = run ∧ ⟨attr, later⟩ :: rest = groups := by simpa using grouped
        have opened : planBreaks limit (⟨attr, later⟩ :: rest) indent lineEnding =
            LineGroup.violations limit indent lineEnding ⟨attr, later⟩ ++
              planBreaks limit rest indent lineEnding := rfl
        rw [violationsFrom, if_neg joined, inductionHypothesis remaining, opened,
          LineGroup.violations_eq enforced room, List.drop_nil, List.map_nil, List.nil_append]
        rfl

/-- The violations of the groups of a row are those of the walk over the row. -/
theorem planBreaks_groupByLine {limit : LineLimit} (enforced : limit.enforced = true)
    (room : 1 ≤ limit.cap) (indent : Text) (lineEnding : LineEnding) (first : Attribute)
    (others : List Attribute) :
    planBreaks limit (groupByLine (first :: others)) indent lineEnding =
      violationsFrom limit indent lineEnding first.startLine 1 first others := by
  obtain ⟨run, groups, grouped⟩ := exists_groupByLine first others
  have opened : planBreaks limit (⟨first, run⟩ :: groups) indent lineEnding =
      LineGroup.violations limit indent lineEnding ⟨first, run⟩ ++
        planBreaks limit groups indent lineEnding := rfl
  rw [violationsFrom_eq enforced room indent lineEnding grouped, grouped, opened,
    LineGroup.violations_eq enforced room]
  rfl

/-- An element without attributes has no violations. -/
theorem Rule.check_nil (config : RuleConfig) {element : Element} (none : element.attributes = []) :
    Rule.check config element = [] := by
  simp [Rule.check, Element.isEmpty, none]

/-- The violations of an element with attributes are found in one walk behind the first of them,
    unless its limit is not enforced. -/
theorem Rule.check_cons (config : RuleConfig) {element : Element} {first : Attribute}
    {others : List Attribute} (some : element.attributes = first :: others) :
    Rule.check config element =
      if (config.limitFor element.isMultiline).enforced then
        violationsFrom (config.limitFor element.isMultiline) element.indent config.lineEnding
          first.startLine 1 first others
      else [] := by
  have filled : element.isEmpty = false := by simp [Element.isEmpty, some]
  simp only [Rule.check, filled, Bool.false_eq_true, if_false, some]
  split
  · rename_i enforced
    exact planBreaks_groupByLine enforced (config.limitFor_cap_pos _) _ _ _ _
  · rfl

end TagWrap
