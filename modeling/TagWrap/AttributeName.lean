import TagWrap.Text.Blank

/-!
# Attribute names

An attribute is reported by a name that is read off its source text. A plain
attribute such as `size={3}` goes by what stands before the equals sign, a spread
such as `{...rest}` by the expression that it spreads.
-/
namespace TagWrap

/-- The identifier that an attribute is reported by. -/
inductive AttributeName where
  /-- An attribute with a name, with or without a value. -/
  | named (name : Text)
  /-- A spread, by the text of its expression. -/
  | spread (expression : Text)
deriving DecidableEq, Repr

namespace AttributeName

/-- The text that stands for the attribute in a report. -/
def text : AttributeName → Text
  | named name => name
  | spread expression => expression

/-- Whether the attribute is a spread. -/
def isSpread : AttributeName → Bool
  | named _ => false
  | spread _ => true

/-- A text without one closing brace at its end. -/
def withoutClosingBrace (text : Text) : Text :=
  if text.getLast? = some '\x7d' then text.dropLast else text

/-- Whether a character can stand in the name of an attribute. -/
def isNameChar (char : Char) : Bool := char != '=' && !Text.isBlank char

/-- The expression of a spread, from the text after its opening brace: what follows
    three dots, where anything does. -/
def spreadExpression? (inner : Text) : Option Text :=
  match Text.trim (withoutClosingBrace inner) with
  | '.' :: '.' :: '.' :: rest =>
      let expression := Text.trim rest
      if expression.isEmpty then none else some expression
  | _ => none

/-- Read the name off the source text of an attribute. Blanks around it do not
    count. An opening brace must begin a spread. Otherwise the name ends before the
    first equals sign or blank, and there must be one. -/
def ofSource? (source : Text) : Option AttributeName :=
  match Text.trim source with
  | '\x7b' :: inner => (spreadExpression? inner).map spread
  | bare =>
      let name := bare.takeWhile isNameChar
      if name.isEmpty then none else some (named name)

end AttributeName

end TagWrap
