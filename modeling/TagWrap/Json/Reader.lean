import TagWrap.Data.Datum
import TagWrap.Decimal.Layout

/-!
# Reading JSON text

A document is one value and nothing else but blanks around it. The reader goes as far
as the text is well-formed and leaves the fault in the datum where it is not. Arrays
and objects may be nested 127 deep.

An integer without fraction and exponent is exact as long as it fits into 64 bits. Any
other number is a double-precision number, computed from as many digits as fit into 64
bits and from a power of ten.
-/
namespace TagWrap.Json.Reader

/-- The text without its leading blanks. JSON knows four of them. -/
def skipBlanks (text : Text) : Text :=
  text.dropWhile fun char => char == ' ' || char == '\n' || char == '\t' || char == '\r'

/-! ## Strings -/

/-- The value of a hexadecimal digit. -/
def hexDigit? (char : Char) : Option Nat :=
  if '0' ≤ char ∧ char ≤ '9' then some (char.toNat - '0'.toNat)
  else if 'a' ≤ char ∧ char ≤ 'f' then some (char.toNat - 'a'.toNat + 10)
  else if 'A' ≤ char ∧ char ≤ 'F' then some (char.toNat - 'A'.toNat + 10)
  else none

/-- The number that four hexadecimal digits stand for, and the text after them. -/
def hexFour (text : Text) : Except Fault (Nat × Text) :=
  if Text.byteSize (text.take 4) < 4 then .error .endInString
  else
    match (text.take 4).mapM hexDigit? with
    | some [first, second, third, fourth] =>
        .ok (((first * 16 + second) * 16 + third) * 16 + fourth, text.drop 4)
    | _ => .error .invalidEscape

/-- The character of an escape that starts with a `u`, from the text after that letter.
    A character beyond the first 65536 takes two such escapes, one for each half. -/
def unicodeEscape (text : Text) : Except Fault (Char × Text) := do
  let (first, rest) ← hexFour text
  if 0xDC00 ≤ first ∧ first ≤ 0xDFFF then
    throw .loneSurrogate
  else if first < 0xD800 ∨ 0xDBFF < first then
    return (Char.ofNat first, rest)
  else
    match rest with
    | [] => throw .endInString
    | ['\\'] => throw .endInString
    | '\\' :: 'u' :: rest =>
        let (second, rest) ← hexFour rest
        if second < 0xDC00 ∨ 0xDFFF < second then
          throw .loneSurrogate
        else
          return (Char.ofNat (0x10000 + (first - 0xD800) * 0x400 + (second - 0xDC00)), rest)
    | _ => throw .unexpectedEndOfEscape

/-- The character that an escape stands for, from the text after its backslash. -/
def escape (text : Text) : Except Fault (Char × Text) :=
  match text with
  | [] => .error .endInString
  | '"' :: rest => .ok ('"', rest)
  | '\\' :: rest => .ok ('\\', rest)
  | '/' :: rest => .ok ('/', rest)
  | 'b' :: rest => .ok ('\x08', rest)
  | 'f' :: rest => .ok ('\x0c', rest)
  | 'n' :: rest => .ok ('\n', rest)
  | 'r' :: rest => .ok ('\r', rest)
  | 't' :: rest => .ok ('\t', rest)
  | 'u' :: rest => unicodeEscape rest
  | _ => .error .invalidEscape

/-- The characters of a string and the text after its closing quote, from the text after
    its opening quote. Each step takes at least one character, so one step more than
    there are characters suffices. -/
def stringBody : Nat → Text → Except Fault (Text × Text)
  | 0, _ => .error .endInString
  | fuel + 1, text =>
      match text with
      | [] => .error .endInString
      | '"' :: rest => .ok ([], rest)
      | '\\' :: rest => do
          let (char, rest) ← escape rest
          let (others, rest) ← stringBody fuel rest
          return (char :: others, rest)
      | char :: rest =>
          if char.toNat < 0x20 then .error .controlCharacter
          else do
            let (others, rest) ← stringBody fuel rest
            return (char :: others, rest)

/-- The string that starts after an opening quote, and the text after it. -/
def readString (fuel : Nat) (text : Text) : Except Fault (String × Text) := do
  let (chars, rest) ← stringBody fuel text
  return (String.ofList chars, rest)

/-! ## Numbers -/

/-- The value of a decimal digit. -/
def digit? (char : Char) : Option Nat :=
  if '0' ≤ char ∧ char ≤ '9' then some (char.toNat - '0'.toNat) else none

/-- The greatest significand that is kept. -/
def maxSignificand : Nat := 0xFFFFFFFFFFFFFFFF

/-- Extend a significand by digits for as long as it stays within 64 bits. The result is
    the significand, the number of digits taken and the text after them. -/
def takeDigits : Nat → Nat → Text → Nat × Nat × Text
  | significand, taken, [] => (significand, taken, [])
  | significand, taken, char :: rest =>
      match digit? char with
      | some digit =>
          if significand * 10 + digit ≤ maxSignificand then
            takeDigits (significand * 10 + digit) (taken + 1) rest
          else (significand, taken, char :: rest)
      | none => (significand, taken, char :: rest)

/-- Whether a character is a decimal digit. -/
def isDigit (char : Char) : Bool := (digit? char).isSome

/-- The number of digits that a text starts with, and the text after them. -/
def skipDigits (text : Text) : Nat × Text :=
  ((text.takeWhile isDigit).length, text.dropWhile isDigit)

/-- Whether a text starts with a digit. -/
def startsWithDigit : Text → Bool
  | char :: _ => isDigit char
  | [] => false

/-- Multiply by a power of ten, or divide by one, in steps of at most 308. Four steps
    take any significand to zero. -/
def scaleByTen : Nat → Float → Int → Option Float
  | 0, _, _ => some 0
  | fuel + 1, value, exponent =>
      if exponent.natAbs ≤ 308 then
        let power := Float.ofScientific 1 false exponent.natAbs
        if 0 ≤ exponent then
          let scaled := value * power
          if scaled.isInf then none else some scaled
        else some (value / power)
      else if value == 0 then some value
      else if 0 ≤ exponent then none
      else scaleByTen fuel (value / Float.ofScientific 1 false 308) (exponent + 308)

/-- The number that a sign, a significand and a power of ten make up. -/
def float (negative : Bool) (significand : Nat) (exponent : Int) : Except Fault Datum :=
  match scaleByTen 8 (UInt64.ofNat significand).toFloat exponent with
  | some magnitude =>
      .ok (.float (Decimal.Layout.json.write (if negative then -magnitude else magnitude)))
  | none => .error .numberOutOfRange

/-- The number whose exponent starts after the letter. An exponent beyond 31 bits makes
    any number but zero too great or nothing. -/
def exponentPart (negative : Bool) (significand : Nat) (scale : Int) (text : Text) :
    Except Fault (Datum × Text) := do
  let (below, text) := match text with
    | '+' :: rest => (false, rest)
    | '-' :: rest => (true, rest)
    | other => (false, other)
  if text.isEmpty then throw .endInValue
  if !startsWithDigit text then throw .invalidNumber
  let digits := text.takeWhile isDigit
  let rest := text.dropWhile isDigit
  let exponent := digits.foldl (fun value char => value * 10 + (digit? char).getD 0) 0
  if 0x80000000 ≤ exponent then
    if significand ≠ 0 ∧ !below then throw .numberOutOfRange
    return (.float (if negative then "-0.0" else "0.0"), rest)
  let scaled ← float negative significand (if below then scale - exponent else scale + exponent)
  return (scaled, rest)

/-- The number whose digits before the exponent are read. -/
def finish (negative : Bool) (significand : Nat) (scale : Int) (text : Text) :
    Except Fault (Datum × Text) :=
  match text with
  | 'e' :: rest => exponentPart negative significand scale rest
  | 'E' :: rest => exponentPart negative significand scale rest
  | rest => do
      let value ← float negative significand scale
      return (value, rest)

/-- The number whose fraction starts after the point. There must be a digit. -/
def fractionPart (negative : Bool) (significand : Nat) (scale : Int) (text : Text) :
    Except Fault (Datum × Text) := do
  if text.isEmpty then throw .endInValue
  if !startsWithDigit text then throw .invalidNumber
  let (significand, taken, rest) := takeDigits significand 0 text
  finish negative significand (scale - taken) (skipDigits rest).2

/-- The number whose digits before the point are read. It is an integer if nothing more
    follows and it fits. -/
def afterInteger (negative : Bool) (significand dropped : Nat) (text : Text) :
    Except Fault (Datum × Text) :=
  match text with
  | '.' :: rest => fractionPart negative significand dropped rest
  | 'e' :: rest => exponentPart negative significand dropped rest
  | 'E' :: rest => exponentPart negative significand dropped rest
  | rest =>
      if dropped = 0 ∧ !negative then .ok (.int significand, rest)
      else if dropped = 0 ∧ 0 < significand ∧ significand ≤ 0x8000000000000000 then
        .ok (.int (-significand), rest)
      else do
        let value ← float negative significand dropped
        return (value, rest)

/-- A number and the text after it, from the text after its sign. A zero in front stands
    alone. -/
def number (negative : Bool) (text : Text) : Except Fault (Datum × Text) :=
  match text with
  | [] => .error .endInValue
  | '0' :: rest =>
      if startsWithDigit rest then .error .invalidNumber else afterInteger negative 0 0 rest
  | _ =>
      if startsWithDigit text then
        let (significand, _, rest) := takeDigits 0 0 text
        let (dropped, rest) := skipDigits rest
        afterInteger negative significand dropped rest
      else .error .invalidNumber

/-! ## Values -/

/-- The text after the rest of a word, of which the first letter is read. -/
def word : Text → Text → Except Fault Text
  | [], text => .ok text
  | _ :: _, [] => .error .endInValue
  | letter :: letters, char :: rest =>
      if letter = char then word letters rest else .error .expectedIdent

/-- What was read, and the text after it unless the text broke off. -/
abbrev Reading (α : Type) := α × Option Text

/-- A scalar, or the fault in its place. -/
def ofScalar (result : Except Fault (Datum × Text)) : Reading Datum :=
  match result with
  | .ok (datum, rest) => (datum, some rest)
  | .error fault => (.broken fault, none)

/-- A word with its meaning, or the fault in its place. -/
def ofWord (meaning : Datum) (result : Except Fault Text) : Reading Datum :=
  ofScalar (result.map (meaning, ·))

/-- The text after the colon behind a key. -/
def colon (text : Text) : Except Fault Text :=
  match skipBlanks text with
  | ':' :: rest => .ok rest
  | [] => .error .endInObject
  | _ => .error .expectedColon

mutual

/-- A value and the text after it. `depth` counts the brackets that may still be opened,
    and `fuel` bounds the steps. -/
def value (fuel depth : Nat) (text : Text) : Reading Datum :=
  match fuel with
  | 0 => (.broken .endInValue, none)
  | fuel + 1 =>
      match skipBlanks text with
      | [] => (.broken .endInValue, none)
      | 'n' :: rest => ofWord .null (word "ull".toList rest)
      | 't' :: rest => ofWord (.bool true) (word "rue".toList rest)
      | 'f' :: rest => ofWord (.bool false) (word "alse".toList rest)
      | '-' :: rest => ofScalar (number true rest)
      | '"' :: rest =>
          ofScalar ((readString fuel rest).map fun result => (.string result.1, result.2))
      | '[' :: rest =>
          if depth ≤ 1 then (.broken .tooDeep, none)
          else
            let result := items fuel (depth - 1) true rest
            (.array result.1.1 result.1.2, result.2)
      | '\x7b' :: rest =>
          if depth ≤ 1 then (.broken .tooDeep, none)
          else
            let result := members fuel (depth - 1) true rest
            (.object result.1.1 result.1.2, result.2)
      | char :: rest =>
          if isDigit char then ofScalar (number false (char :: rest))
          else (.broken .expectedValue, none)

/-- The items of an array up to its closing bracket. A comma stands before each but the
    first. -/
def items (fuel depth : Nat) (first : Bool) (text : Text) : Reading (List Datum × Tail) :=
  match fuel with
  | 0 => (([], .broken .endInList), none)
  | fuel + 1 =>
      match skipBlanks text with
      | ']' :: rest => (([], .closed), some rest)
      | [] => (([], .broken .endInList), none)
      | ',' :: rest =>
          if first then item fuel depth (',' :: rest)
          else
            match skipBlanks rest with
            | ']' :: _ => (([], .broken .trailingComma), none)
            | other => item fuel depth other
      | other =>
          if first then item fuel depth other
          else (([], .broken .expectedListCommaOrEnd), none)

/-- An item and those after it. -/
def item (fuel depth : Nat) (text : Text) : Reading (List Datum × Tail) :=
  match fuel with
  | 0 => (([], .broken .endInValue), none)
  | fuel + 1 =>
      match value fuel depth text with
      | (datum, some rest) =>
          let others := items fuel depth false rest
          ((datum :: others.1.1, others.1.2), others.2)
      | (datum, none) => (([datum], (datum.fault?.map Tail.broken).getD .closed), none)

/-- The members of an object up to its closing brace. A comma stands before each but the
    first, and a key is a string. -/
def members (fuel depth : Nat) (first : Bool) (text : Text) :
    Reading (List (String × Datum) × Tail) :=
  match fuel with
  | 0 => (([], .broken .endInObject), none)
  | fuel + 1 =>
      match skipBlanks text with
      | '\x7d' :: rest => (([], .closed), some rest)
      | [] => (([], .broken .endInObject), none)
      | ',' :: rest =>
          if first then (([], .broken .keyMustBeString), none)
          else
            match skipBlanks rest with
            | '"' :: rest => member fuel depth rest
            | '\x7d' :: _ => (([], .broken .trailingComma), none)
            | [] => (([], .broken .endInValue), none)
            | _ => (([], .broken .keyMustBeString), none)
      | '"' :: rest =>
          if first then member fuel depth rest
          else (([], .broken .expectedObjectCommaOrEnd), none)
      | _ =>
          if first then (([], .broken .keyMustBeString), none)
          else (([], .broken .expectedObjectCommaOrEnd), none)

/-- A member, from the text after the opening quote of its key, and those after it. -/
def member (fuel depth : Nat) (text : Text) : Reading (List (String × Datum) × Tail) :=
  match fuel with
  | 0 => (([], .broken .endInObject), none)
  | fuel + 1 =>
      match readString fuel text with
      | .error fault => (([], .broken fault), none)
      | .ok (key, rest) =>
          match colon rest with
          | .error fault => (([(key, .broken fault)], .broken fault), none)
          | .ok rest =>
              match value fuel depth rest with
              | (datum, some rest) =>
                  let others := members fuel depth false rest
                  (((key, datum) :: others.1.1, others.1.2), others.2)
              | (datum, none) =>
                  (([(key, datum)], (datum.fault?.map Tail.broken).getD .closed), none)

end

/-- The number of brackets that can be open at once, and one more. -/
def maxDepth : Nat := 128

/-- The value that a text starts with, and the text after it. Every three steps take a
    character. -/
def read (text : Text) : Reading Datum := value (3 * text.length + 3) maxDepth text

/-- What follows a document that was read: nothing but blanks, or a fault. -/
def trailing : Option Text → Option Fault
  | none => none
  | some rest => if (skipBlanks rest).isEmpty then none else some .trailingCharacters

end TagWrap.Json.Reader
