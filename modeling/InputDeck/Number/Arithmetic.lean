import InputDeck.Number.Binary64

/-!
# Exact operations on doubles

Remainders and roundings to whole numbers have an exact result, which is computed from the exact
values. The lesser and the greater of two numbers pass over what is not a number.
-/

namespace InputDeck.Number

/-- The double with no value. -/
def notANumber : Float := Float.ofBits 0x7FF8000000000000

/--
The remainder of a division whose quotient is rounded toward zero: it has the sign of the dividend.
Nothing is left of a division by an infinity but the dividend.
-/
def remainder (x y : Float) : Float :=
  match Binary64.ofFloat x, Binary64.ofFloat y with
  | .finite negative m p, .finite _ n q =>
    if n = 0 then notANumber
    else
      let unit := min p q
      let rest := m * 2 ^ (p - unit).toNat % (n * 2 ^ (q - unit).toNat)
      (Binary64.finite negative rest unit).toFloat
  | .finite .., .infinite _ => x
  | _, _ => notANumber

/-- How a fraction is rounded: whether a negative and a positive one move away from zero. -/
structure Rounding where
  /-- Whether a negative fraction moves away from zero. -/
  awayBelow : Bool
  /-- Whether a positive fraction moves away from zero. -/
  awayAbove : Bool

/-- The nearest whole number on one side; whole numbers and values without an end stay. -/
def Rounding.apply (rounding : Rounding) (x : Float) : Float :=
  match Binary64.ofFloat x with
  | .finite negative significand exponent =>
    if 0 ≤ exponent then x
    else
      let one := 2 ^ (-exponent).toNat
      let away := if negative then rounding.awayBelow else rounding.awayAbove
      let whole :=
        if away && significand % one != 0 then significand / one + 1 else significand / one
      (Binary64.finite negative whole 0).toFloat
  | _ => x

/-- The greatest whole number not above a number. -/
def floor (x : Float) : Float := Rounding.apply ⟨true, false⟩ x

/-- The least whole number not below a number. -/
def ceiling (x : Float) : Float := Rounding.apply ⟨false, true⟩ x

/-- The lesser of two numbers; what is not a number is passed over. -/
def lesser (x y : Float) : Float := if x.isNaN then y else if y < x then y else x

/-- The greater of two numbers; what is not a number is passed over. -/
def greater (x y : Float) : Float := if x.isNaN then y else if x < y then y else x

example : remainder 5.5 2 = 1.5 ∧ remainder (-5.5) 2 = -1.5 := by decide +kernel

example : floor (-0.5) = -1 ∧ ceiling 0.5 = 1 ∧ floor 2.75 = 2 := by decide +kernel

end InputDeck.Number
