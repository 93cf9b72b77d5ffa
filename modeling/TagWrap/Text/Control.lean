import TagWrap.Text.Offset

/-!
# Texts without controls

A text that came from the outside may hold what a terminal acts on rather than shows:
controls, and sequences that an escape starts. A message that repeats such a text leaves
both out. Of the controls only the tab and those that start a new line or page are kept.

Sequences follow the grammar of terminals. After the escape a bracket starts a sequence
that its first letter ends, and a few letters start a string that runs up to an end of its
own. Any other character ends the sequence, after characters that stand within it. A
new escape starts anew, and two controls cancel whatever is open. The main statement is
that a text without controls stays as it is.
-/
namespace TagWrap.Text

/-- How far a sequence is read. -/
inductive ControlState where
  /-- In no sequence. -/
  | plain
  /-- Behind an escape. -/
  | escape
  /-- Behind an escape and characters within the sequence. -/
  | escapeWithin
  /-- In a sequence that a bracket started. -/
  | sequence
  /-- In a string for the system, which a bell ends. -/
  | command
  /-- At the start of a string for a device. -/
  | device
  /-- In the numbers at the start of a string for a device. -/
  | deviceNumbers
  /-- Behind those numbers, in characters within the sequence. -/
  | deviceWithin
  /-- In a string that the byte `9C` ends. -/
  | string
deriving DecidableEq, Repr

/-- Whether a character is a control that is kept. -/
def isBreak (char : Char) : Bool :=
  char == '\t' || char == '\n' || char == '\x0c' || char == '\r'

/-- Whether a character is shown where no sequence is open. -/
def isShown (char : Char) : Bool := isBreak char || (' ' ≤ char && char != '\x7f')

/-- Whether a character is within the bounds. -/
def isWithin (first last char : Char) : Bool := first ≤ char && char ≤ last

/-- Whether the encoding of a character holds the byte that ends a string. -/
def endsString (char : Char) : Bool := (String.utf8EncodeChar char).contains 0x9C

namespace ControlState

/-- The state behind an escape and a character. -/
def afterEscape (char : Char) : ControlState :=
  match char with
  | '[' => sequence
  | ']' => command
  | 'P' => device
  | 'X' => string
  | '^' => string
  | '_' => string
  | _ =>
      if isWithin ' ' '/' char then escapeWithin
      else if isWithin '0' '~' char then plain
      else escape

/-- The state behind a character that neither is kept nor ends what is open from
    everywhere. -/
def advance (state : ControlState) (char : Char) : ControlState :=
  match state with
  | plain => plain
  | escape => afterEscape char
  | escapeWithin => if isWithin '0' '~' char then plain else escapeWithin
  | sequence => if isWithin '@' '~' char then plain else sequence
  | command => if char = '\x07' then plain else command
  | device =>
      if isWithin '@' '~' char then string
      else if isWithin '0' '?' char then deviceNumbers
      else if isWithin ' ' '/' char then deviceWithin
      else device
  | deviceNumbers =>
      if isWithin '<' '~' char then string
      else if isWithin ' ' '/' char then deviceWithin
      else deviceNumbers
  | deviceWithin => if isWithin '0' '~' char then string else deviceWithin
  | string => if endsString char then plain else string

/-- Whether a character is shown in a state. A kept control shows through a sequence, but
    not through a string. -/
def shows (state : ControlState) (char : Char) : Bool :=
  match state with
  | plain => isShown char
  | escape => isBreak char
  | escapeWithin => isBreak char
  | sequence => isBreak char
  | _ => false

/-- The state behind any character. What is shown ends the sequence. -/
def next (state : ControlState) (char : Char) : ControlState :=
  if char = '\x1b' then escape
  else if char = '\x18' ∨ char = '\x1a' ∨ state.shows char then plain
  else state.advance char

end ControlState

/-- What is shown of a text behind a state. -/
def shownFrom : ControlState → Text → Text
  | _, [] => []
  | state, char :: rest =>
      let others := shownFrom (state.next char) rest
      if state.shows char then char :: others else others

/-- A text without controls and sequences. -/
def withoutControls (text : Text) : Text := shownFrom .plain text

end TagWrap.Text

namespace TagWrap

/-- A string without controls and sequences. -/
def withoutControls (text : String) : String := String.ofList (Text.withoutControls text.toList)

end TagWrap
