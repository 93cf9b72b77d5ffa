/-!
# Integers that fit a word

A maximum is held in a word of 64 bits with a sign. Integers themselves are unbounded
here, and every reader asks whether the one it has read still fits.
-/
namespace TagWrap.Word

/-- The number of integers on either side of zero that a word holds. -/
def limit : Int := 0x8000000000000000

/-- Whether an integer fits a word. -/
def fits (value : Int) : Bool := -limit ≤ value && value < limit

/-- An integer fits if it is not less than the least one and is less than the limit. -/
theorem fits_iff {value : Int} : fits value = true ↔ -limit ≤ value ∧ value < limit := by
  simp [fits]

/-- The range reaches one further below zero than above it. -/
example : fits (-limit) = true ∧ fits limit = false := by decide

end TagWrap.Word
