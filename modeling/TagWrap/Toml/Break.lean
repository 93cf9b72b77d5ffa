import TagWrap.Text.Offset

/-!
# Blanks, comments and line breaks in TOML

Blanks are spaces and tabs. A line ends with a line feed, which a carriage return may
precede, or with the end of the text, and a comment may stand before that. A carriage
return by itself is nothing that TOML knows.
-/
namespace TagWrap.Toml

/-- The text without its leading spaces and tabs. -/
def skipBlanks (text : Text) : Text := text.dropWhile fun char => char == ' ' || char == '\t'

/-- Whether a character may stand in a comment and, if nothing else is the matter with
    it, in a string: a tab, or anything but a control character. -/
def isPlain (char : Char) : Bool := char == '\t' || (0x20 ≤ char.toNat && char.toNat != 0x7F)

/-- The text after a line break. -/
def newline? : Text → Option Text
  | '\n' :: rest => some rest
  | '\r' :: '\n' :: rest => some rest
  | _ => none

/-- The text without a comment at its start. -/
def skipComment : Text → Text
  | '#' :: rest => rest.dropWhile isPlain
  | text => text

/-- The text after what remains of a line, where nothing but blanks and a comment may
    remain. -/
def lineEnd? (text : Text) : Option Text :=
  match skipComment (skipBlanks text) with
  | [] => some []
  | rest => newline? rest

/-- The text without leading blanks, comments and line breaks. Each step takes a line
    break, so the length of the text bounds the steps. -/
def skipLines : Nat → Text → Text
  | 0, text => text
  | fuel + 1, text =>
      match newline? (skipComment (skipBlanks text)) with
      | some rest => skipLines fuel rest
      | none => skipBlanks text

/-- The text without leading blanks, comments and line breaks. -/
def skipBreaks (text : Text) : Text := skipLines text.length text

end TagWrap.Toml
