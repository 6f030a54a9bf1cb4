import InputDeck.Number.Decimal

/-!
# Texts of numbers

Three layouts of the exact value of a double.

* A deck gets whole numbers below `2 ^ 53` as integers and every other number in scientific form,
  with the shortest digits or with a given number of decimals. Infinities and not-a-number are
  written as the divisions that produce them, so that a deck that is read again computes them.
* A message about an index gets the shortest digits without an exponent.
* A message about a token gets the shortest digits, with an exponent only for very large and very
  small numbers, and always with a point or an exponent.
-/

namespace InputDeck.Number

/-- The decimal text of a natural number. -/
def natText (n : Nat) : String := String.ofList (Nat.toDigits 10 n)

/-- The decimal text of an integer. -/
def integerText (negative : Bool) (n : Nat) : List Char :=
  (if negative && n != 0 then ['-'] else []) ++ Nat.toDigits 10 n

/-- The text of a power of ten behind the exponent mark. -/
def exponentText (exponent : Int) : List Char :=
  integerText (exponent < 0) exponent.natAbs

/-- The digits with a point after the first, when more follow. -/
def withLeadingPoint : List Char → List Char
  | [] => []
  | [digit] => [digit]
  | digit :: rest => digit :: '.' :: rest

/-- One digit before the point, the others after it, and the power of ten behind `e`. -/
def scientific (d : Decimal) : List Char :=
  withLeadingPoint d.digits ++ 'e' :: exponentText d.leadingExponent

/-- All digits in their places, with the zeros that lead to or from the point. -/
def positional (d : Decimal) : List Char :=
  if 0 ≤ d.exponent then d.digits ++ List.replicate d.exponent.toNat '0'
  else
    let places := (-d.exponent).toNat
    let padded := List.replicate (places + 1 - d.digits.length) '0' ++ d.digits
    let whole := padded.length - places
    padded.take whole ++ '.' :: padded.drop whole

/-- The sign in front of a number. -/
def signed (negative : Bool) (text : List Char) : List Char :=
  if negative then '-' :: text else text

/-- Whole numbers below this limit are written to decks as integers. -/
def integralLimit : Nat := 2 ^ 53

/-- The text of a positive or negative number that is not written as an integer. -/
def scientificText (precision : Option Nat) (negative : Bool) (significand : Nat)
    (exponent : Int) : List Char :=
  signed negative <| scientific <|
    match precision with
    | some places => Decimal.rounded significand exponent (places + 1)
    | none => Decimal.shortest significand exponent

/-- The text of a value in a deck, with a given number of decimals or the shortest one. -/
def Binary64.deckText (precision : Option Nat) (v : Binary64) : List Char :=
  match v with
  | .nan => ['0', '/', '0']
  | .infinite negative => signed negative ['1', '/', '0']
  | .finite negative significand exponent =>
    match v.whole? with
    | some n =>
      if n < integralLimit then integerText negative n
      else scientificText precision negative significand exponent
    | none => scientificText precision negative significand exponent

/-- How a message writes a number. -/
structure MessageLayout where
  /-- Whether a leading digit that stands for this power of ten is written without an exponent. -/
  isPositional : Int → Bool
  /-- Whether a whole number without an exponent keeps a point and a zero. -/
  keepsPoint : Bool

/-- An index is shown with all its digits. -/
def indexLayout : MessageLayout := ⟨fun _ => true, false⟩

/-- A number token is shown with an exponent from `1e16` on and below `1e-4`. -/
def tokenLayout : MessageLayout := ⟨fun exponent => -5 < exponent && exponent < 16, true⟩

/-- The text of a positive decimal in a layout for messages. -/
def MessageLayout.decimalText (layout : MessageLayout) (d : Decimal) : List Char :=
  if layout.isPositional d.leadingExponent then
    positional d ++ if layout.keepsPoint && decide (0 ≤ d.exponent) then ['.', '0'] else []
  else scientific d

/-- The text of a value in a layout for messages. -/
def MessageLayout.text (layout : MessageLayout) : Binary64 → List Char
  | .nan => ['N', 'a', 'N']
  | .infinite negative => signed negative ['i', 'n', 'f']
  | .finite negative significand exponent =>
    signed negative <|
      if significand = 0 then layout.decimalText ⟨0, 0⟩
      else layout.decimalText (Decimal.shortest significand exponent)

/-- The text of a number in a deck. -/
def deckText (precision : Option Nat) (x : Float) : String :=
  String.ofList ((Binary64.ofFloat x).deckText precision)

/-- The text of a number in a message about an index. -/
def indexText (x : Float) : String := String.ofList (indexLayout.text (Binary64.ofFloat x))

/-- The text of a number in a message about a token. -/
def tokenText (x : Float) : String := String.ofList (tokenLayout.text (Binary64.ofFloat x))

example : deckText none 10 = "10" ∧ deckText none 0.5 = "5e-1" ∧ deckText (some 2) 0.5 = "5.00e-1" ∧
    deckText none 1e300 = "1e300" ∧ deckText none (-0.0) = "0" := by decide +kernel

example : deckText none (0 / 0) = "0/0" ∧ deckText none (1 / 0) = "1/0" ∧
    deckText none (-1 / 0) = "-1/0" := by decide +kernel

example : deckText none (0.1 + 0.2) = "3.0000000000000004e-1" ∧
    deckText none 5e-324 = "5e-324" := by decide +kernel

example : indexText 1.5 = "1.5" ∧ indexText (-2) = "-2" ∧ indexText 0.001 = "0.001" := by
  decide +kernel

example : tokenText 1 = "1.0" ∧ tokenText 1e16 = "1e16" ∧ tokenText 0.00001 = "1e-5" := by
  decide +kernel

end InputDeck.Number
