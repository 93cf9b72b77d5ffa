import Mathlib.Algebra.GroupWithZero.Nat
import Mathlib.Data.List.SplitBy
import TagWrap.Proofs.Overflow

/-!
# The rule reports the excess

What the rule finds is said without groups, plans and limits. The attributes of a tag fall into
the longest runs in which each attribute starts on the line where the one before it ends. The
excess of a run are its attributes from a cap on. A tag that is not exempt has one violation for
each attribute of the excess, in the order of the attributes, and no other
(`check_eq_excess`).

The groups of the rule are these runs (`attributes_groupByLine`). A partition into longest runs
is unique, so it is enough that the groups make up the attributes again, that each of them is
joined and that no two neighbours could be one.
-/
namespace TagWrap

namespace LineGroup

/-- Putting an attribute in front of groups puts it in front of the attributes that they hold. -/
theorem flatten_prepend (attr : Attribute) (groups : List LineGroup) :
    ((prepend attr groups).map attributes).flatten = attr :: (groups.map attributes).flatten := by
  cases groups with
  | nil => rfl
  | cons group groups =>
      rw [prepend]
      split
      · rfl
      · rfl

/-- Each group stays joined when an attribute is put in front of groups. It joins the first of
    them only where that continues its line. -/
theorem joined_prepend {attr : Attribute} {groups : List LineGroup}
    (joined : ∀ group ∈ groups, group.attributes.IsChain fun previous next =>
      previous.continues next) :
    ∀ group ∈ prepend attr groups, group.attributes.IsChain fun previous next =>
      previous.continues next := by
  cases groups with
  | nil =>
      intro group member
      rw [prepend, List.mem_singleton] at member
      subst member
      exact List.isChain_singleton attr
  | cons first others =>
      intro group member
      rw [prepend] at member
      split at member
      · rename_i continued
        rcases List.mem_cons.mp member with rfl | later
        · exact List.isChain_cons_cons.mpr ⟨continued, joined first List.mem_cons_self⟩
        · exact joined group (List.mem_cons_of_mem first later)
      · rcases List.mem_cons.mp member with rfl | later
        · exact List.isChain_singleton attr
        · exact joined group later

/-- No group continues the line of the group before it. -/
def Parted (run next : List Attribute) : Prop :=
  ∃ (filled : run ≠ []) (filledNext : next ≠ []),
    (run.getLast filled).continues (next.head filledNext) = false

/-- Groups stay parted when an attribute is put in front of them. Where it joins the first group,
    the last attribute of that group stays the same. -/
theorem parted_prepend {attr : Attribute} {groups : List LineGroup}
    (parted : (groups.map attributes).IsChain Parted) :
    ((prepend attr groups).map attributes).IsChain Parted := by
  cases groups with
  | nil => exact List.isChain_singleton _
  | cons first others =>
      rw [prepend]
      split
      · cases others with
        | nil => exact List.isChain_singleton _
        | cons second rest =>
            obtain ⟨⟨filled, filledNext, apart⟩, later⟩ := List.isChain_cons_cons.mp parted
            refine List.isChain_cons_cons.mpr ⟨⟨List.cons_ne_nil _ _, filledNext, ?_⟩, later⟩
            simpa [attributes] using apart
      · rename_i separate
        refine List.isChain_cons_cons.mpr ⟨⟨List.cons_ne_nil _ _, List.cons_ne_nil _ _, ?_⟩, parted⟩
        simpa [attributes] using separate

end LineGroup

/-- The groups of attributes are the longest runs in which each attribute continues the line of
    the one before it. The attributes are put in front of the groups one by one, from the last to
    the first, and each of the three conditions on the runs survives that. -/
theorem attributes_groupByLine (attributes : List Attribute) :
    (groupByLine attributes).map LineGroup.attributes =
      attributes.splitBy Attribute.continues := by
  symm
  apply List.splitBy_eq_iff.mpr
  refine ⟨?whole, ?filled, ?joined, ?parted⟩
  case whole =>
    induction attributes with
    | nil => rfl
    | cons attr others inductionHypothesis =>
        change _ = ((LineGroup.prepend attr (groupByLine others)).map _).flatten
        rw [LineGroup.flatten_prepend, ← inductionHypothesis]
  case filled =>
    intro empty
    obtain ⟨group, -, none⟩ := List.mem_map.mp empty
    exact List.cons_ne_nil group.first group.rest none
  case joined =>
    intro run member
    obtain ⟨group, listed, rfl⟩ := List.mem_map.mp member
    clear member
    induction attributes generalizing group with
    | nil => simp [groupByLine] at listed
    | cons attr others inductionHypothesis =>
        exact LineGroup.joined_prepend inductionHypothesis group listed
  case parted =>
    induction attributes with
    | nil => exact List.isChain_nil
    | cons attr others inductionHypothesis => exact LineGroup.parted_prepend inductionHypothesis

/-- The attributes of a run from an index on, each found by its own index. -/
def excessOf (cap : Nat) (run : List Attribute) : List Attribute :=
  (run.zipIdx.filter fun (_, index) => cap ≤ index).map Prod.fst

/-- The indexes of a list are its attributes in order, so those from an index on are what is left
    when the attributes before it are dropped. -/
theorem excessOf_eq_drop (cap : Nat) (run : List Attribute) : excessOf cap run = run.drop cap := by
  suffices shifted : ∀ start, ((run.zipIdx start).filter fun (_, index) => cap ≤ index).map Prod.fst
      = run.drop (cap - start) from shifted 0
  induction run with
  | nil => simp
  | cons attr others inductionHypothesis =>
      intro start
      rw [List.zipIdx_cons, List.filter_cons]
      have later := inductionHypothesis (start + 1)
      by_cases reached : cap ≤ start
      · rw [Nat.sub_eq_zero_of_le (by omega), List.drop_zero] at later
        simp [reached, later, Nat.sub_eq_zero_of_le reached]
      · obtain ⟨left, ahead⟩ : ∃ left, cap - start = left + 1 := ⟨cap - start - 1, by omega⟩
        rw [show cap - (start + 1) = left by omega] at later
        simp [reached, later, ahead]

namespace Element

/-- The rule leaves a tag alone that has no attribute, and one that starts and ends on the same
    line if only tags on several lines are asked for. -/
def Exempt (config : RuleConfig) (element : Element) : Prop :=
  element.attributes = [] ∨
    config.scope = .multiline ∧ element.span.start.line = element.span.stop.line

instance (config : RuleConfig) (element : Element) : Decidable (element.Exempt config) :=
  inferInstanceAs (Decidable (_ ∨ _))

/-- The number of attributes that a run of the tag may hold. It is never zero. -/
def runCap (config : RuleConfig) (element : Element) : Nat :=
  max 1 <| match config.maximum with
    | .flat cap => cap
    | .split single multi =>
        if element.span.start.line = element.span.stop.line then single else multi

/-- The violation of an attribute in the excess of a run. A line break takes the place of the
    blanks in front of the attribute. The indent of the tag follows where the attribute starts on
    the line that the run starts on. -/
def moved (config : RuleConfig) (element : Element) (run : List Attribute) (attr : Attribute) :
    Violation where
  subject := attr.name
  location := attr.span
  edit :=
    { span := attr.leadingBlanks
      replacement := config.lineEnding.text ++
        if run.head?.map Attribute.startLine = some attr.startLine then element.indent else []
      message := s!"Move `{String.ofList attr.name.text}` to a new line" }

/-- The rule passes an element over exactly when it is exempt. -/
theorem exempt_iff (config : RuleConfig) (element : Element) :
    element.Exempt config ↔ element.attributes = [] ∨
      (config.limitFor element.isMultiline).enforced = false := by
  apply or_congr_right
  change _ ↔ config.scope.applies element.isMultiline = false
  cases config.scope with
  | always => simp [Scope.applies]
  | multiline => simp [Scope.applies, isMultiline, Span.isMultiline]

/-- The cap of the limit for an element. -/
theorem cap_limitFor (config : RuleConfig) (element : Element) :
    (config.limitFor element.isMultiline).cap = element.runCap config := by
  change max (config.maximum.capFor element.isMultiline) 1 = _
  rw [runCap, Nat.max_comm]
  cases config.maximum with
  | flat cap => rfl
  | split single multi =>
      by_cases oneLine : element.span.start.line = element.span.stop.line
      · simp [Maximum.capFor, isMultiline, Span.isMultiline, oneLine]
      · simp [Maximum.capFor, isMultiline, Span.isMultiline, oneLine]

end Element

/-- The violation of an attribute of a group is the one for its run. -/
theorem LineGroup.breakBefore_eq_moved (config : RuleConfig) (element : Element)
    (group : LineGroup) (attr : Attribute) :
    breakBefore config.lineEnding (group.indentFor element.indent attr) attr =
      element.moved config group.attributes attr := by
  have anchored : (group.attributes.head?.map Attribute.startLine = some attr.startLine) =
      (attr.startLine = group.line) := by
    rw [attributes, List.head?_cons, Option.map_some, Option.some.injEq]
    exact propext eq_comm
  simp only [breakBefore, Element.moved, indentFor, anchored]

/-- The violations of an element that is not exempt are those of the excess of its runs. -/
theorem Rule.check_of_not_exempt {config : RuleConfig} {element : Element}
    (subject : ¬ element.Exempt config) :
    Rule.check config element =
      (element.attributes.splitBy Attribute.continues).flatMap fun run =>
        (excessOf (element.runCap config) run).map (element.moved config run) := by
  rw [Element.exempt_iff, not_or, Bool.not_eq_false] at subject
  obtain ⟨filled, enforced⟩ := subject
  have occupied : element.isEmpty = false := by simpa [Element.isEmpty] using filled
  rw [check, occupied, if_neg Bool.false_ne_true, if_pos enforced, planBreaks,
    ← attributes_groupByLine, List.flatMap_map]
  apply List.flatMap_congr
  intro group _
  rw [LineGroup.violations_eq_drop enforced, excessOf_eq_drop, Element.cap_limitFor]
  apply List.map_congr_left
  intro attr _
  exact group.breakBefore_eq_moved config element attr

/-- An exempt element has no violations. -/
theorem Rule.check_of_exempt {config : RuleConfig} {element : Element}
    (exempt : element.Exempt config) : Rule.check config element = [] := by
  rcases (Element.exempt_iff config element).mp exempt with empty | free
  · simp [check, Element.isEmpty, empty]
  · simp [check, free]

/-- The rule reports exactly the excess attributes. An exempt element has no violation. Any other
    has one for each attribute whose index in its run is not below the cap, in the order of the
    attributes, and so as many as the runs hold too much together. -/
theorem check_eq_excess (config : RuleConfig) (element : Element) :
    Rule.check config element =
      (if element.Exempt config then [] else
        (element.attributes.splitBy Attribute.continues).flatMap fun run =>
          (excessOf (element.runCap config) run).map (element.moved config run)) ∧
    (Rule.check config element).length =
      if element.Exempt config then 0 else
        ((element.attributes.splitBy Attribute.continues).map fun run =>
          run.length - element.runCap config).sum := by
  by_cases exempt : element.Exempt config
  · rw [Rule.check_of_exempt exempt, if_pos exempt, if_pos exempt]
    exact ⟨rfl, rfl⟩
  · rw [Rule.check_of_not_exempt exempt, if_neg exempt, if_neg exempt]
    refine ⟨rfl, ?_⟩
    rw [List.length_flatMap]
    congr 1
    apply List.map_congr_left
    intro run _
    rw [List.length_map, excessOf_eq_drop, List.length_drop]

end TagWrap
