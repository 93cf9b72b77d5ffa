/-!
# The shortest decimal of a binary number

A double-precision number stands for every real that rounds to it. It is written by
the decimal with the fewest digits among those reals, and of several by the one
nearest to the number itself. All comparisons are exact, over natural numbers.

With `n` digits only two decimals come into question, the neighbours of the number on
the grid of that many digits, so the search tries one digit, then two, and so on.
-/
namespace TagWrap.Decimal

/-- A positive number `mantissa * 2 ^ exponent`, as a double-precision number holds
    it. -/
structure Binary where
  mantissa : Nat
  exponent : Int
  /-- Whether the next number below is half as far away as the next one above. -/
  narrowBelow : Bool
deriving DecidableEq, Repr

/-- A number `digits * 10 ^ exponent`. -/
structure Scaled where
  digits : Nat
  exponent : Int
deriving DecidableEq, Repr

/-- The magnitude of a finite number, from its bits. -/
def Binary.ofBits (bits : UInt64) : Binary :=
  let biased := ((bits >>> 52) &&& 0x7FF).toNat
  let fraction := (bits &&& 0xFFFFFFFFFFFFF).toNat
  if biased = 0 then ⟨fraction, -1074, false⟩
  else ⟨0x10000000000000 + fraction, (biased : Int) - 1075, fraction == 0 && 1 < biased⟩

/-- Compare `digits * 10 ^ exponent` with `count * 2 ^ scale`. -/
def compareScaled (digits : Nat) (exponent : Int) (count : Nat) (scale : Int) : Ordering :=
  compare (digits * Nat.pow 10 exponent.toNat * Nat.pow 2 (-scale).toNat)
    (count * Nat.pow 2 scale.toNat * Nat.pow 10 (-exponent).toNat)

/-- Whether a decimal is among the reals that round to the number. Both ends of that
    interval are, if the mantissa is even. -/
def Binary.contains (number : Binary) (decimal : Scaled) : Bool :=
  let low := if number.narrowBelow then 4 * number.mantissa - 1 else 4 * number.mantissa - 2
  let high := 4 * number.mantissa + 2
  let inclusive := number.mantissa % 2 == 0
  let fromLow := compareScaled decimal.digits decimal.exponent low (number.exponent - 2)
  let toHigh := compareScaled decimal.digits decimal.exponent high (number.exponent - 2)
  (fromLow == .gt || (inclusive && fromLow == .eq)) &&
    (toHigh == .lt || (inclusive && toHigh == .eq))

/-- The greatest multiple of `10 ^ exponent` that is not above the number, counted in
    such multiples. -/
def Binary.floorOn (number : Binary) (exponent : Int) : Nat :=
  (number.mantissa * Nat.pow 2 number.exponent.toNat * Nat.pow 10 (-exponent).toNat) /
    (Nat.pow 10 exponent.toNat * Nat.pow 2 (-number.exponent).toNat)

/-- Which of the two multiples of `10 ^ exponent` next to the number is nearer, where
    a tie goes to the even one or, if `tieUp`, to the greater. -/
def Binary.nearerOn (number : Binary) (exponent : Int) (tieUp : Bool) : Nat :=
  let low := number.floorOn exponent
  -- The number against the middle of `low` and `low + 1`.
  match compareScaled (2 * low + 1) exponent (2 * number.mantissa) number.exponent with
  | .lt => low + 1
  | .gt => low
  | .eq => if tieUp || low % 2 = 1 then low + 1 else low

/-- The decimal next to the number on a grid, if one of the two is in its interval. -/
def Binary.onGrid (number : Binary) (tieUp : Bool) (exponent : Int) : Option Scaled :=
  let low : Scaled := ⟨number.floorOn exponent, exponent⟩
  let high : Scaled := ⟨low.digits + 1, exponent⟩
  match number.contains low, number.contains high with
  | true, true => some ⟨number.nearerOn exponent tieUp, exponent⟩
  | true, false => some low
  | false, true => some high
  | false, false => none

/-- The exponent of the leading digit of a positive number: the greatest `e` within
    the range of double precision such that the number is at least `10 ^ e`. -/
def Binary.leadingExponent (number : Binary) : Int :=
  let candidates := (List.range 634).map fun (step : Nat) => (309 : Int) - step
  (candidates.find? fun exponent =>
    compareScaled 1 exponent number.mantissa number.exponent != .gt).getD (-324)

/-- A decimal without trailing zeros among its digits. -/
def Scaled.strip : Nat → Scaled → Scaled
  | 0, decimal => decimal
  | fuel + 1, decimal =>
      if decimal.digits ≠ 0 ∧ decimal.digits % 10 = 0 then
        strip fuel ⟨decimal.digits / 10, decimal.exponent + 1⟩
      else decimal

/-- The shortest decimal of a positive number. Seventeen digits always suffice; were
    they not to, the exact value on the finest grid would stand in. -/
def Binary.shortest (number : Binary) (tieUp : Bool) : Scaled :=
  let leading := number.leadingExponent
  let grids := (List.range 17).map fun (step : Nat) => leading - step
  let found := (grids.findSome? (number.onGrid tieUp)).getD
    ⟨number.floorOn (-1074), -1074⟩
  found.strip 800

end TagWrap.Decimal
