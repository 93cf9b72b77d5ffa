import TagWrap.Element

/-!
# Groups of attributes on one line

An attribute joins the group before it when it starts on the line where the one
before it ends. So `a={` on one line and `} b` on the next are one group, whose first
attribute spans two lines.
-/
namespace TagWrap

/-- A run of attributes that share lines. There is at least one. -/
structure LineGroup where
  first : Attribute
  rest : List Attribute
deriving DecidableEq, Repr

namespace LineGroup

/-- The attributes of a group in order. -/
def attributes (group : LineGroup) : List Attribute := group.first :: group.rest

/-- The number of attributes of a group. -/
def length (group : LineGroup) : Nat := group.attributes.length

/-- The line that a group starts on. -/
def line (group : LineGroup) : Nat := group.first.startLine

end LineGroup

/-- Whether an attribute stands on the line where the one before it ends. -/
def Attribute.continues (previous next : Attribute) : Bool := next.startLine == previous.stopLine

/-- Put an attribute in front of groups: into the first of them if that continues the
    line of the attribute. -/
def LineGroup.prepend (attr : Attribute) : List LineGroup → List LineGroup
  | [] => [⟨attr, []⟩]
  | group :: groups =>
      if attr.continues group.first then ⟨attr, group.attributes⟩ :: groups
      else ⟨attr, []⟩ :: group :: groups

/-- Split attributes into groups that share lines, in order. -/
def groupByLine (attributes : List Attribute) : List LineGroup :=
  attributes.foldr LineGroup.prepend []

end TagWrap
