import TagWrap.RuleOptions

/-!
# The limit for one element

For a given element the configuration comes down to one number, or to no limit at
all. The number is at least one, since a line that may hold no attribute cannot be
written.
-/
namespace TagWrap

/-- How many attributes one line of an element may hold. -/
structure LineLimit where
  /-- Whether the limit applies to the element. -/
  enforced : Bool
  cap : Nat
deriving DecidableEq, Repr

namespace LineLimit

/-- A limit with a cap of at least one. -/
def ofCap (enforced : Bool) (cap : Nat) : LineLimit := ⟨enforced, max cap 1⟩

/-- The number of attributes that a line of `length` attributes has too many. -/
def excess (limit : LineLimit) (length : Nat) : Nat :=
  if limit.enforced then length - limit.cap else 0

end LineLimit

/-- Whether the limit applies to an element on several lines or on one. -/
def Scope.applies (scope : Scope) (multiline : Bool) : Bool :=
  match scope with
  | always => true
  | .multiline => multiline

/-- The limit for an element on several lines or on one. -/
def RuleConfig.limitFor (config : RuleConfig) (multiline : Bool) : LineLimit :=
  LineLimit.ofCap (config.scope.applies multiline) (config.maximum.capFor multiline)

end TagWrap
