import TagWrap.Data.Decode
import TagWrap.Json.Reader
import TagWrap.Json.Value

/-!
# Documents and options in JSON

A document is decoded in one of two ways. A dump and plain options are decoded while
their text is read, so that the first mistake in the text decides, whether it is one of
form or of shape. Options as linters write them, in an array or alone, are read to the
end first.
-/
namespace TagWrap

namespace Json

/-- A document with the fault that follows its value, if one does. -/
def document (text : Text) : Datum × Option Fault :=
  let result := Reader.read text
  (result.1, Reader.trailing result.2)

/-- The value of a text that is one document. -/
def ofText (text : Text) : Except Fault Json := settle (document text)

/-- Decode a document while it is read. -/
def decodeText {α : Type} (decode : Datum → Except DecodeError α) (text : Text) :
    Except DecodeError α := do
  let (datum, after) := document text
  let result ← decode datum
  match after with
  | some fault => throw (.unreadable fault)
  | none => return result

end Json

/-- Why options in JSON are refused. -/
inductive OptionsError where
  | outOfRange (error : OutOfRange)
  /-- An array with more than one item. -/
  | tooMany (count : Nat)
  | decode (error : DecodeError)
deriving DecidableEq, Repr

/-- The wording of an error. -/
def OptionsError.message : OptionsError → String
  | outOfRange error => error.message
  | tooMany count => s!"Expected at most one options object, got {count}"
  | decode error => s!"Invalid rule options: {error.message}"

namespace RuleConfig

/-- The options that a value holds: the value itself, or the only item of an array. An
    empty array holds null. -/
def unwrapOptions : Json → Except OptionsError Json
  | .array [] => .ok .null
  | .array [item] => .ok item
  | .array items => .error (.tooMany items.length)
  | other => .ok other

/-- The configuration for a JSON value. Null stands for no options. -/
def ofJson (value : Json) : Except OptionsError RuleConfig := do
  let value ← unwrapOptions value
  let options ←
    if value.isNull then pure RuleOptions.empty
    else (Decode.ruleOptions value.toDatum).mapError .decode
  (ofOptions options).mapError .outOfRange

/-- The configuration for a JSON text. -/
def ofJsonText (text : Text) : Except OptionsError RuleConfig := do
  let value ← (Json.ofText text).mapError fun fault => .decode (.unreadable fault)
  ofJson value

end RuleConfig

end TagWrap
