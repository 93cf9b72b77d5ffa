import TagWrap.Text.Offset

/-!
# Line endings

An inserted line break is written either as a line feed or as a carriage return and
a line feed. Unless it is fixed beforehand, a file keeps to the one it uses already:
a single carriage return with a line feed anywhere decides for the pair.
-/
namespace TagWrap

/-- The two ways to end a line. -/
inductive LineEnding where
  | lf
  | crlf
deriving DecidableEq, Repr

namespace LineEnding

/-- The characters of a line ending. -/
def text : LineEnding → Text
  | lf => ['\n']
  | crlf => ['\r', '\n']

/-- The name that a line ending is asked for by. -/
def name : LineEnding → String
  | lf => "lf"
  | crlf => "crlf"

/-- Read a line ending from its name in any case, from its characters, or from its
    characters written as escapes. -/
def ofName? (value : String) : Option LineEnding :=
  let value := value.toLower
  if value = "lf" ∨ value = "\n" ∨ value = "\\n" then some lf
  else if value = "crlf" ∨ value = "\r\n" ∨ value = "\\r\\n" then some crlf
  else none

/-- Whether a carriage return stands directly before a line feed. -/
def hasPair : Text → Bool
  | '\r' :: '\n' :: _ => true
  | _ :: rest => hasPair rest
  | [] => false

/-- The line ending that a source keeps to. -/
def detect (source : Text) : LineEnding := if hasPair source then crlf else lf

end LineEnding

end TagWrap
