import TagWrap.Decimal.Layout
import TagWrap.Toml.Quoted
import TagWrap.Word

/-!
# Numbers in TOML

A number is one word. Digits may be set apart by single underscores. An integer has 64
bits with a sign and no leading zeros, and without a sign it can be written in base
sixteen, eight or two. A floating-point number has a fraction, an exponent or both, or
is one of the words for infinity and for what is no number.
-/
namespace TagWrap.Toml

/-- The values of digits of a base among which single underscores may stand. There must
    be a digit at either end. -/
def digitValues? (base : Nat) : Text → Option (List Nat)
  | [] => none
  | char :: rest => do
      let value ← hexValue? char
      if base ≤ value then none
      else
        match rest with
        | [] => some [value]
        | '_' :: rest => (value :: ·) <$> digitValues? base rest
        | rest => (value :: ·) <$> digitValues? base rest

/-- The values of decimal digits without a leading zero. A zero can stand alone. -/
def wholeValues? (text : Text) : Option (List Nat) :=
  match text with
  | '0' :: _ :: _ => none
  | _ => digitValues? 10 text

/-- A word without its sign, and whether the sign is a minus. -/
def splitSign : Text → Bool × Text
  | '-' :: rest => (true, rest)
  | '+' :: rest => (false, rest)
  | text => (false, text)

/-- An integer that fits a word. -/
def fitting? (value : Int) : Option Int :=
  if Word.fits value then some value else none

/-- The integer that a word stands for. -/
def integer? (word : Text) : Option Int := do
  match word with
  | '0' :: 'x' :: digits => fitting? (ofDigits 16 (← digitValues? 16 digits))
  | '0' :: 'o' :: digits => fitting? (ofDigits 8 (← digitValues? 8 digits))
  | '0' :: 'b' :: digits => fitting? (ofDigits 2 (← digitValues? 2 digits))
  | _ =>
      let (negative, digits) := splitSign word
      let magnitude : Int := ofDigits 10 (← wholeValues? digits)
      fitting? (if negative then -magnitude else magnitude)

/-- The exponent that a word stands for. It may have leading zeros. -/
def exponent? (word : Text) : Option Int := do
  let (negative, digits) := splitSign word
  let magnitude : Int := ofDigits 10 (← digitValues? 10 digits)
  return if negative then -magnitude else magnitude

/-- Whether a character marks an exponent. -/
def marksExponent (char : Char) : Bool := char == 'e' || char == 'E'

/-- The nearest double-precision number to `significand * 10 ^ exponent`. Exponents out
    of all reach are not computed with. -/
def nearestFloat (significand : Nat) (exponent : Int) : Float :=
  let reach : Int := (Nat.toDigits 10 significand).length + 400
  if significand = 0 ∨ exponent < -reach then 0
  else if 400 < exponent then 1 / 0
  else if exponent < 0 then Float.ofScientific significand true exponent.natAbs
  else Float.ofScientific significand false exponent.natAbs

/-- The magnitude that a word without a sign stands for. -/
def magnitude? (word : Text) : Option Float := do
  if word = ['i', 'n', 'f'] then return 1 / 0
  if word = ['n', 'a', 'n'] then return 0 / 0
  let front := word.takeWhile (!marksExponent ·)
  let whole := front.takeWhile (· != '.')
  let wholeDigits ← wholeValues? whole
  let fraction ← match front.dropWhile (· != '.') with
    | [] => some []
    | _ :: digits => digitValues? 10 digits
  let exponent ← match word.dropWhile (!marksExponent ·) with
    | [] => if fraction.isEmpty then none else some 0
    | _ :: exponent => exponent? exponent
  return nearestFloat (ofDigits 10 (wholeDigits ++ fraction)) (exponent - fraction.length)

/-- Whether a word names infinity outright. -/
def namesInfinity (word : Text) : Bool := (splitSign word).2 == ['i', 'n', 'f']

/-- The floating-point number that a word stands for. Digits must not exceed what is
    finite, unless they are negative. -/
def float? (word : Text) : Option Float := do
  let (negative, digits) := splitSign word
  let magnitude ← magnitude? digits
  if magnitude.isInf ∧ !negative ∧ !namesInfinity word then none
  else some (if negative then -magnitude else magnitude)

/-- The written form of a floating-point number in a message. -/
def shownFloat (value : Float) : String := Decimal.Layout.toml.write value

end TagWrap.Toml
