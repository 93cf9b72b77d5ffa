import TagWrap.Decimal.Shortest

/-!
# How a floating-point number is written

The digits are the shortest that read back. A layout says from which exponents on the
point is written in its place, which way a tie between two equally short and equally
near decimals goes, and how the exponent is written otherwise.
-/
namespace TagWrap.Decimal

/-- The decisions about the written form of a number. -/
structure Layout where
  /-- Whether a number whose leading digit has this exponent has its point in its
      place. -/
  positional : Int → Bool
  /-- Whether a tie goes to the greater decimal rather than to the even one. -/
  tieUp : Bool

/-- The decimal digits of a natural number. -/
def digitsOf (number : Nat) : List Char := Nat.toDigits 10 number

/-- A decimal with its point in its place, and with a digit on both sides of it. -/
def positionalText (decimal : Scaled) : List Char :=
  let digits := digitsOf decimal.digits
  if 0 ≤ decimal.exponent then
    digits ++ List.replicate decimal.exponent.toNat '0' ++ ['.', '0']
  else
    let places := (-decimal.exponent).toNat
    if places < digits.length then
      digits.take (digits.length - places) ++ '.' :: digits.drop (digits.length - places)
    else '0' :: '.' :: List.replicate (places - digits.length) '0' ++ digits

/-- A decimal with its point after the first digit, and its exponent with a sign. -/
def scientificText (decimal : Scaled) : List Char :=
  let digits := digitsOf decimal.digits
  let exponent := decimal.exponent + digits.length - 1
  let magnitude := digitsOf exponent.natAbs
  let fraction := digits.drop 1
  digits.take 1 ++ (if fraction.isEmpty then [] else '.' :: fraction) ++
    'e' :: (if exponent < 0 then '-' else '+') :: magnitude

/-- The magnitude of a finite number. -/
def Layout.magnitude (layout : Layout) (bits : UInt64) : List Char :=
  let number := Binary.ofBits bits
  if number.mantissa = 0 then ['0', '.', '0']
  else
    let decimal := number.shortest layout.tieUp
    let leading := decimal.exponent + (digitsOf decimal.digits).length - 1
    if layout.positional leading then positionalText decimal else scientificText decimal

/-- A number, with a sign in front of one below zero and of a negative zero. -/
def Layout.write (layout : Layout) (value : Float) : String :=
  if value.isNaN then "NaN"
  else
    let negative := value.toBits >>> 63 = 1
    let magnitude :=
      if value.isInf then ['i', 'n', 'f'] else layout.magnitude value.toBits
    String.ofList (if negative then '-' :: magnitude else magnitude)

/-- The layout of numbers in messages about JSON: the point is in its place for small
    exponents. -/
def Layout.json : Layout where
  positional exponent := -5 ≤ exponent && exponent < 16
  tieUp := false

/-- The layout of numbers in messages about TOML: the point is always in its place. -/
def Layout.toml : Layout where
  positional _ := true
  tieUp := true

end TagWrap.Decimal
