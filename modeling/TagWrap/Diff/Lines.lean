import TagWrap.Text.Offset

/-!
# Lines of a text

A line ends with a line feed, with a carriage return and a line feed, or with a carriage
return by itself. The characters that end it belong to it, so the lines of a text make
it up again. Only the last line can be without an end.
-/
namespace TagWrap.Diff

/-- Put a character in front of the first line. -/
def pushFront (char : Char) : List Text → List Text
  | [] => [[char]]
  | line :: lines => (char :: line) :: lines

/-- The lines of a text. -/
def linesOf : Text → List Text
  | [] => []
  | '\n' :: rest => ['\n'] :: linesOf rest
  | '\r' :: '\n' :: rest => ['\r', '\n'] :: linesOf rest
  | '\r' :: rest => ['\r'] :: linesOf rest
  | char :: rest => pushFront char (linesOf rest)

/-- A character in front of the first line is in front of the text that the lines make
    up. -/
theorem flatten_pushFront (char : Char) (lines : List Text) :
    (pushFront char lines).flatten = char :: lines.flatten := by
  cases lines <;> simp [pushFront]

/-- The lines of a text make it up again. -/
theorem flatten_linesOf (text : Text) : (linesOf text).flatten = text := by
  fun_induction linesOf text with
  | case1 => rfl
  | case2 rest inductionHypothesis => simp [inductionHypothesis]
  | case3 rest inductionHypothesis => simp [inductionHypothesis]
  | case4 rest _ inductionHypothesis => simp [inductionHypothesis]
  | case5 char rest _ _ _ inductionHypothesis => simp [flatten_pushFront, inductionHypothesis]

/-- Whether a line has an end. -/
def isEnded (line : Text) : Bool :=
  match line.getLast? with
  | some char => char == '\n' || char == '\r'
  | none => false

/-- A line without the line breaks at its end. -/
def withoutEnd (line : Text) : Text :=
  (line.reverse.dropWhile fun char => char == '\n' || char == '\r').reverse

end TagWrap.Diff
