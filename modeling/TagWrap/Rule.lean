import TagWrap.Edit
import TagWrap.LineGroup
import TagWrap.LineLimit

/-!
# The rule

Every attribute of a group past the limit is a violation. It comes with the edit that
moves the attribute: the blanks in front of it give way to a line break and to the
indent of the tag. An attribute on the last line of a value that spans several lines
gets no indent, since the column of the first attribute means nothing there.
-/
namespace TagWrap

/-- An attribute that must move to a line of its own, with the edit that moves it. -/
structure Violation where
  subject : AttributeName
  location : Span
  edit : Edit
deriving DecidableEq, Repr

/-- The wording of a violation. -/
def Violation.message (violation : Violation) : String :=
  s!"Prop `{String.ofList violation.subject.text}` must be placed on a new line"

/-- The violation of an attribute that must follow a line break and an indent. -/
def breakBefore (lineEnding : LineEnding) (indent : Text) (attr : Attribute) : Violation where
  subject := attr.name
  location := attr.span
  edit :=
    { span := attr.leadingBlanks
      replacement := lineEnding.text ++ indent
      message := s!"Move `{String.ofList attr.name.text}` to a new line" }

/-- The indent for an attribute of a group: that of the tag on the first line of the
    group, and none after it. -/
def LineGroup.indentFor (group : LineGroup) (indent : Text) (attr : Attribute) : Text :=
  if attr.startLine = group.line then indent else []

/-- The violations of a group: one for each attribute past the cap, if there is any. -/
def LineGroup.violations (limit : LineLimit) (indent : Text) (lineEnding : LineEnding)
    (group : LineGroup) : List Violation :=
  if limit.excess group.length = 0 then []
  else (group.attributes.drop limit.cap).map fun attr =>
    breakBefore lineEnding (group.indentFor indent attr) attr

/-- The violations of groups, in the order of their attributes. -/
def planBreaks (limit : LineLimit) (groups : List LineGroup) (indent : Text)
    (lineEnding : LineEnding) : List Violation :=
  groups.flatMap (LineGroup.violations limit indent lineEnding)

namespace Rule

/-- The name that the rule is reported by. -/
def name : String := "jsx_max_props_per_line"

/-- What the rule does, in one line. -/
def description : String := "Limit the number of JSX props on a single line"

/-- The violations of one element, in the order of its attributes. -/
def check (config : RuleConfig) (element : Element) : List Violation :=
  if element.isEmpty then []
  else
    let limit := config.limitFor element.isMultiline
    if limit.enforced then
      planBreaks limit (groupByLine element.attributes) element.indent config.lineEnding
    else []

/-- The violations of the elements of a file, element by element. -/
def checkAll (config : RuleConfig) (elements : List Element) : List Violation :=
  elements.flatMap (check config)

end Rule

end TagWrap
