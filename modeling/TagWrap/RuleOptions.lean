import TagWrap.LineEnding
import TagWrap.Text.Quoted

/-!
# Options of the rule

The options say how many attributes one line of a tag may hold and which tags the
limit applies to. They are first taken as written, where a number can be anything,
and then turned into a configuration, where every number is at least one. A side
that is left out of a split maximum counts as one.
-/
namespace TagWrap

/-- Which elements the limit applies to. -/
inductive Scope where
  /-- Every element. -/
  | always
  /-- Only elements whose tag spans several lines already. -/
  | multiline
deriving DecidableEq, Repr

namespace Scope

/-- The word for a scope. -/
def name : Scope → String
  | always => "always"
  | multiline => "multiline"

/-- Read a scope from its word. -/
def ofName? (word : String) : Option Scope :=
  if word = "always" then some always
  else if word = "multiline" then some multiline
  else none

end Scope

/-- A maximum with a number for each kind of element, as written. -/
structure WrittenSplit where
  /-- For elements on one line. -/
  single : Option Int
  /-- For elements on several lines. -/
  multi : Option Int
deriving DecidableEq, Repr

/-- The maximum as written. -/
inductive WrittenMaximum where
  | flat (value : Int)
  | split (sides : WrittenSplit)
deriving DecidableEq, Repr

/-- The options as written. -/
structure RuleOptions where
  maximum : Option WrittenMaximum
  scope : Option Scope
deriving DecidableEq, Repr

/-- No option at all. -/
def RuleOptions.empty : RuleOptions := ⟨none, none⟩

/-- The number of attributes that one line may hold. -/
inductive Maximum where
  /-- The same for all elements. -/
  | flat (cap : Nat)
  /-- One number for elements on one line and one for those on several. -/
  | split (single multi : Nat)
deriving DecidableEq, Repr

/-- The number that applies to an element on several lines or on one. -/
def Maximum.capFor (maximum : Maximum) (multiline : Bool) : Nat :=
  match maximum with
  | flat cap => cap
  | split single multi => if multiline then multi else single

/-- The options once they are found usable. -/
structure RuleConfig where
  maximum : Maximum
  scope : Scope
  lineEnding : LineEnding
deriving DecidableEq, Repr

/-- One attribute for each line of every element. -/
def RuleConfig.default : RuleConfig := ⟨.flat 1, .always, .lf⟩

/-- The number in the options that an error is about. -/
inductive MaximumField where
  | whole
  | single
  | multi
deriving DecidableEq, Repr

/-- The name of a number in the options. -/
def MaximumField.name : MaximumField → String
  | whole => "maximum"
  | single => "maximum.single"
  | multi => "maximum.multi"

/-- A number in the options that is below one. -/
structure OutOfRange where
  field : MaximumField
  value : Int
deriving DecidableEq, Repr

/-- The wording for a number below one. -/
def OutOfRange.message (error : OutOfRange) : String :=
  s!"`{error.field.name}` must be an integer >= 1, got {error.value}"

/-- The wording for a scope that is none. -/
def unknownScopeMessage (word : String) : String :=
  s!"Unknown `when` value {quotedString word}, expected \"always\" or \"multiline\""

/-- A number as a cap. Caps start at one. -/
def capOf (field : MaximumField) (value : Int) : Except OutOfRange Nat :=
  if 1 ≤ value then .ok value.toNat else .error ⟨field, value⟩

/-- One side of a split maximum, where a missing side counts as one. -/
def sideCapOf (field : MaximumField) : Option Int → Except OutOfRange Nat
  | none => .ok 1
  | some value => capOf field value

/-- The maximum that is meant. The side for single lines is looked at first. -/
def Maximum.ofWritten : Option WrittenMaximum → Except OutOfRange Maximum
  | none => .ok (.flat 1)
  | some (.flat value) => do
      let cap ← capOf .whole value
      return .flat cap
  | some (.split sides) => do
      let single ← sideCapOf .single sides.single
      let multi ← sideCapOf .multi sides.multi
      return .split single multi

/-- The configuration that options stand for, with line feeds for line breaks. -/
def RuleConfig.ofOptions (options : RuleOptions) : Except OutOfRange RuleConfig := do
  let maximum ← Maximum.ofWritten options.maximum
  return ⟨maximum, options.scope.getD .always, .lf⟩

/-- Options from the command line, which go before those of a file. -/
structure RuleOverrides where
  maximum : Option Int
  single : Option Int
  multi : Option Int
  scope : Option Scope
deriving DecidableEq, Repr

namespace RuleOverrides

/-- No override at all. -/
def empty : RuleOverrides := ⟨none, none, none, none⟩

/-- The sides that a written maximum sets. A flat number counts for both. -/
def sidesOf : Option WrittenMaximum → WrittenSplit
  | some (.split sides) => sides
  | some (.flat value) => ⟨some value, some value⟩
  | none => ⟨none, none⟩

/-- Lay the overrides over options. A maximum replaces the whole maximum. A side
    replaces that side and keeps the other. -/
def apply (overrides : RuleOverrides) (options : RuleOptions) : RuleOptions :=
  let maximum := match overrides.maximum with
    | some value => some (.flat value)
    | none => options.maximum
  let maximum :=
    if overrides.single.isSome || overrides.multi.isSome then
      let sides := sidesOf maximum
      some (.split ⟨overrides.single.or sides.single, overrides.multi.or sides.multi⟩)
    else maximum
  ⟨maximum, overrides.scope.or options.scope⟩

end RuleOverrides

end TagWrap
