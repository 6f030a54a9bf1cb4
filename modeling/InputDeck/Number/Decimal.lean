import InputDeck.Number.Binary64

/-!
# Decimals near a double

The positive value `significand · 2 ^ exponent` of a double is turned into a decimal in two ways.
The shortest decimal has the fewest digits of all that lie among the reals which round to the
double, and is the nearest of those. The rounded decimal has a given number of digits and is the
nearest of that length. Everything is computed on exact integers.

A value is compared with the points `count · 10 ^ grid` of a decimal grid by clearing the
denominators of both: on the common scale the value is a whole multiple of one integer and the
points of the grid are the multiples of another.
-/

namespace InputDeck.Number

/-- The decimal number `coefficient · 10 ^ exponent`. -/
structure Decimal where
  /-- The digits, read as one number. -/
  coefficient : Nat
  /-- The power of ten that the last digit stands for. -/
  exponent : Int
  deriving DecidableEq, Repr

namespace Decimal

/-- The digits of a decimal, the leading one first. -/
def digits (d : Decimal) : List Char := Nat.toDigits 10 d.coefficient

/-- The power of ten that the leading digit stands for. -/
def leadingExponent (d : Decimal) : Int := d.exponent + d.digits.length - 1

/-- The power of ten of the leading digit of a positive ratio. -/
def magnitude (numerator denominator : Nat) : Int :=
  if denominator ≤ numerator then (Nat.toDigits 10 (numerator / denominator)).length - 1
  else -((Nat.toDigits 10 ((denominator - 1) / numerator)).length : Int)

/-- The power of ten of the leading digit of `significand · 2 ^ exponent`. -/
def binaryMagnitude (significand : Nat) (exponent : Int) : Int :=
  magnitude (significand * 2 ^ exponent.toNat) (2 ^ (-exponent).toNat)

/--
The common scale of `2 ^ exponent` and `10 ^ grid`: the first is to the second as the first part is
to the second.
-/
def commonScale (exponent grid : Int) : Nat × Nat :=
  (2 ^ exponent.toNat * 10 ^ (-grid).toNat, 10 ^ grid.toNat * 2 ^ (-exponent).toNat)

/-- The reals that round to a double, as an interval of quarters of its last binary place. -/
structure RoundingInterval where
  /-- The lower end. -/
  low : Nat
  /-- The double itself. -/
  value : Nat
  /-- The upper end. -/
  high : Nat
  /-- Whether the ends round to the double too. -/
  closed : Bool

/--
The ends lie half a place away, but below a power of two the places are half as wide. The ends
belong to the interval when the significand is even, since a tie rounds to an even significand.
-/
def roundingInterval (significand : Nat) (exponent : Int) : RoundingInterval where
  low := if significand = 2 ^ 52 ∧ -1074 < exponent then 4 * significand - 1
    else 4 * significand - 2
  value := 4 * significand
  high := 4 * significand + 2
  closed := significand % 2 = 0

/-- Whether `point` lies in an interval whose quarters measure `quarter`. -/
def RoundingInterval.holds (interval : RoundingInterval) (quarter point : Nat) : Bool :=
  if interval.closed then interval.low * quarter ≤ point && point ≤ interval.high * quarter
  else interval.low * quarter < point && point < interval.high * quarter

/--
The count of the nearest point of a decimal grid that rounds to the double, if the neighbours of
the double on that grid do; of two at the same distance the upper.
-/
def hit? (interval : RoundingInterval) (quarter step : Nat) : Option Nat :=
  let value := interval.value * quarter
  let below := value / step
  let lower := interval.holds quarter (below * step)
  let upper := interval.holds quarter ((below + 1) * step)
  if upper && (!lower || (below + 1) * step - value ≤ value - below * step) then some (below + 1)
  else if lower then some below else none

/-- A coefficient of `length` digits, or the next power of ten, as a decimal without that carry. -/
def ofCount (length : Nat) (count : Nat) (grid : Int) : Decimal :=
  if count = 10 ^ length then ⟨1, grid + length⟩ else ⟨count, grid⟩

/-- The nearest decimal of `length` digits that rounds to the double, if there is one. -/
def ofLength? (significand : Nat) (exponent : Int) (length : Nat) : Option Decimal :=
  let grid := binaryMagnitude significand exponent - length + 1
  let scale := commonScale (exponent - 2) grid
  (hit? (roundingInterval significand exponent) scale.1 scale.2).map (ofCount length · grid)

/--
The shortest decimal that rounds to the double `significand · 2 ^ exponent`, the nearest of those.
Seventeen digits always suffice.
-/
def shortest (significand : Nat) (exponent : Int) : Decimal :=
  ((List.range' 1 17).findSome? (ofLength? significand exponent)).getD ⟨significand, exponent⟩

/-- A quotient rounded to the nearest whole number, a tie to the even one. -/
def roundedQuotient (numerator denominator : Nat) : Nat :=
  let quotient := numerator / denominator
  let twice := 2 * (numerator % denominator)
  if twice < denominator ∨ (twice = denominator ∧ quotient % 2 = 0) then quotient
  else quotient + 1

/-- The nearest decimal of `length` digits to `significand · 2 ^ exponent`, a tie to the even. -/
def rounded (significand : Nat) (exponent : Int) (length : Nat) : Decimal :=
  let grid := binaryMagnitude significand exponent - length + 1
  let scale := commonScale exponent grid
  let count := roundedQuotient (significand * scale.1) scale.2
  if count = 10 ^ length then ⟨10 ^ (length - 1), grid + 1⟩ else ⟨count, grid⟩

/-- A rounded quotient is within half a unit of the exact one. -/
theorem roundedQuotient_close {numerator denominator : Nat} (h : 0 < denominator) :
    2 * numerator ≤ 2 * (roundedQuotient numerator denominator * denominator) + denominator ∧
      2 * (roundedQuotient numerator denominator * denominator) ≤ 2 * numerator + denominator := by
  have hdiv := Nat.div_add_mod numerator denominator
  have hlt := Nat.mod_lt numerator h
  rw [Nat.mul_comm] at hdiv
  simp only [roundedQuotient]
  generalize numerator / denominator = quotient at hdiv ⊢
  generalize numerator % denominator = rest at hdiv hlt ⊢
  split
  · omega
  · rw [Nat.succ_mul quotient]
    omega

/-- A point that is hit lies in the rounding interval, so the decimal found there rounds to the
double. -/
theorem holds_of_hit? {interval : RoundingInterval} {quarter step count : Nat}
    (h : hit? interval quarter step = some count) :
    interval.holds quarter (count * step) = true := by
  simp only [hit?] at h
  split at h
  · next hu =>
    obtain rfl : _ + 1 = count := by simpa using h
    simp only [Bool.and_eq_true] at hu
    exact hu.1
  · split at h
    · next hl =>
      obtain rfl : _ = count := by simpa using h
      exact hl
    · simp at h

end Decimal

end InputDeck.Number
