import TagWrap.Json.Value
import TagWrap.RuleOptions

/-!
# Writing JSON

A value is written without blanks, or with one item or member a line and two spaces for
each level. Members are written in the order in which they stand. Only what must be
escaped in a string is.
-/
namespace TagWrap.Json

/-- The written form of one character of a string. -/
def escapedChar (char : Char) : Text :=
  if char = '"' then ['\\', '"']
  else if char = '\\' then ['\\', '\\']
  else if char = '\x08' then ['\\', 'b']
  else if char = '\x0c' then ['\\', 'f']
  else if char = '\n' then ['\\', 'n']
  else if char = '\r' then ['\\', 'r']
  else if char = '\t' then ['\\', 't']
  else if char.toNat < 0x20 then
    let digits := Nat.toDigits 16 char.toNat
    '\\' :: 'u' :: (List.replicate (4 - digits.length) '0' ++ digits)
  else [char]

/-- A string in double quotes. -/
def stringText (value : String) : Text := '"' :: (value.toList.flatMap escapedChar ++ ['"'])

/-- An integer in decimal digits. -/
def intText (value : Int) : Text :=
  if value < 0 then '-' :: Nat.toDigits 10 value.natAbs else Nat.toDigits 10 value.natAbs

mutual

/-- A value without blanks. -/
def compact : Json → Text
  | null => "null".toList
  | bool true => "true".toList
  | bool false => "false".toList
  | int value => intText value
  | float shown => shown.toList
  | string value => stringText value
  | array [] => ['[', ']']
  | array (item :: items) => '[' :: (compact item ++ compactItems items)
  | object [] => ['\x7b', '\x7d']
  | object ((key, value) :: members) =>
      '\x7b' :: (stringText key ++ ':' :: (compact value ++ compactMembers members))

/-- The items after the first, and the bracket. -/
def compactItems : List Json → Text
  | [] => [']']
  | item :: items => ',' :: (compact item ++ compactItems items)

/-- The members after the first, and the brace. -/
def compactMembers : List (String × Json) → Text
  | [] => ['\x7d']
  | (key, value) :: members =>
      ',' :: (stringText key ++ ':' :: (compact value ++ compactMembers members))

end

/-- A line break and the spaces in front of a line at some level. -/
def newLine (level : Nat) : Text := '\n' :: List.replicate (2 * level) ' '

mutual

/-- A value over several lines, at some level. -/
def pretty (level : Nat) : Json → Text
  | array [] => ['[', ']']
  | array (item :: items) =>
      '[' :: (newLine (level + 1) ++ pretty (level + 1) item ++ prettyItems level items)
  | object [] => ['\x7b', '\x7d']
  | object ((key, value) :: members) =>
      '\x7b' :: (newLine (level + 1) ++ stringText key ++ ':' :: ' ' ::
        (pretty (level + 1) value ++ prettyMembers level members))
  | null => "null".toList
  | bool true => "true".toList
  | bool false => "false".toList
  | int value => intText value
  | float shown => shown.toList
  | string value => stringText value

/-- The items after the first, and the bracket on a line of its own. -/
def prettyItems (level : Nat) : List Json → Text
  | [] => newLine level ++ [']']
  | item :: items =>
      ',' :: (newLine (level + 1) ++ pretty (level + 1) item ++ prettyItems level items)

/-- The members after the first, and the brace on a line of its own. -/
def prettyMembers (level : Nat) : List (String × Json) → Text
  | [] => newLine level ++ ['\x7d']
  | (key, value) :: members =>
      ',' :: (newLine (level + 1) ++ stringText key ++ ':' :: ' ' ::
        (pretty (level + 1) value ++ prettyMembers level members))

end

/-- A member, where there is a value for it. -/
def member? (key : String) (value : Option Json) : List (String × Json) :=
  match value with
  | some value => [(key, value)]
  | none => []

end TagWrap.Json

namespace TagWrap

/-- A written maximum as a value. A side that is not set is left out. -/
def WrittenMaximum.toJson : WrittenMaximum → Json
  | flat value => .int value
  | split sides =>
      .object (Json.member? "single" (sides.single.map .int) ++
        Json.member? "multi" (sides.multi.map .int))

/-- Options as a value. What is not set is left out. -/
def RuleOptions.toJson (options : RuleOptions) : Json :=
  .object (Json.member? "maximum" (options.maximum.map WrittenMaximum.toJson) ++
    Json.member? "when" (options.scope.map fun scope => .string scope.name))

end TagWrap
