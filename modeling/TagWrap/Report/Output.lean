import TagWrap.Text.Offset

/-!
# Output

What a run writes goes to one of two streams. Text may be styled for a terminal: the
codes of the style stand before it and a reset behind it. A reset within the text would
end the style too early, so the style is taken up again after it.
-/
namespace TagWrap

/-- What is written to the two streams. -/
structure Output where
  stdout : Text
  stderr : Text
deriving DecidableEq, Repr

namespace Output

/-- Nothing at all. -/
def empty : Output := ⟨[], []⟩

instance : Append Output := ⟨fun first second =>
  ⟨first.stdout ++ second.stdout, first.stderr ++ second.stderr⟩⟩

/-- A text on the first stream. -/
def text (text : Text) : Output := ⟨text, []⟩

/-- A line on the first stream. -/
def line (line : Text) : Output := ⟨line ++ ['\n'], []⟩

/-- A line on the second stream. -/
def warning (line : Text) : Output := ⟨[], line ++ ['\n']⟩

/-- Outputs one after the other. -/
def concat (outputs : List Output) : Output := outputs.foldr (· ++ ·) empty

end Output

/-- The ways in which text can stand out. -/
inductive Style where
  | bold
  /-- Bold and underlined. -/
  | heading
  | red
  | green
  | yellow
deriving DecidableEq, Repr

namespace Style

/-- The code that starts a style. -/
def code : Style → Text
  | bold => "\x1b[1m".toList
  | heading => "\x1b[1;4m".toList
  | red => "\x1b[31m".toList
  | green => "\x1b[32m".toList
  | yellow => "\x1b[33m".toList

/-- The code that ends every style. -/
def reset : Text := "\x1b[0m".toList

/-- A text with the style taken up again after each reset. -/
def resume (style : Style) : Text → Text
  | '\x1b' :: '[' :: '0' :: 'm' :: rest => reset ++ style.code ++ resume style rest
  | char :: rest => char :: resume style rest
  | [] => []

/-- A text in a style, if there are to be styles at all. -/
def paint (style : Style) (coloured : Bool) (text : Text) : Text :=
  if coloured then style.code ++ style.resume text ++ reset else text

/-- Whether text is styled. Colours can be forced, and forcing goes before forbidding.
    Otherwise they are for terminals, unless they are turned off. -/
def wanted (terminal : Bool) (force forbid toggle : Option String) : Bool :=
  if force.any (· != "0") then true
  else if forbid.isSome then false
  else terminal && toggle != some "0"

end Style

end TagWrap
