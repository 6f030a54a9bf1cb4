import InputDeck.Number.Layout

/-!
# Numerals

A numeral is `digits[.digits][e[sign]digits]` with at least one digit before the exponent. Its
value is the double nearest to the decimal it spells, a tie going to the even significand; a
decimal beyond all doubles is an infinity.
-/

namespace InputDeck.Number

/-- The digits at the front of a text, and the rest. -/
def cutDigits (cs : List Char) : List Char × List Char :=
  (cs.takeWhile Char.isDigit, cs.dropWhile Char.isDigit)

/-- Cutting off the digits loses nothing. -/
theorem cutDigits_append (cs : List Char) : (cutDigits cs).1 ++ (cutDigits cs).2 = cs :=
  List.takeWhile_append_dropWhile

/-- Only digits are cut off. -/
theorem isDigit_of_mem_cutDigits {c : Char} {cs : List Char} (h : c ∈ (cutDigits cs).1) :
    c.isDigit = true := by
  rw [cutDigits] at h
  simpa using List.all_eq_true.1 List.all_takeWhile c h

/-- All digits at the front of a text are cut off. -/
theorem cutDigits_append_of_not_isDigit {digits rest : List Char}
    (hd : ∀ c ∈ digits, c.isDigit = true) (hr : ∀ c ∈ rest.head?, c.isDigit = false) :
    cutDigits (digits ++ rest) = (digits, rest) := by
  have hrest : rest.takeWhile Char.isDigit = [] ∧ rest.dropWhile Char.isDigit = rest := by
    cases rest with
    | nil => simp
    | cons c cs => simp [hr c (by simp)]
  rw [cutDigits, List.takeWhile_append_of_pos hd, List.dropWhile_append_of_pos hd, hrest.1,
    hrest.2, List.append_nil]

/-- The value of a text of digits. -/
def digitsValue (cs : List Char) : Nat := Nat.ofDigitChars 10 cs 0

/-- The digits of a number have the value of the number. -/
@[simp] theorem digitsValue_toDigits (n : Nat) : digitsValue (Nat.toDigits 10 n) = n :=
  Nat.ofDigitChars_toDigits (by decide) (by decide)

/-- Read a text of digits that a machine word holds. -/
def word? (cs : List Char) : Option Nat :=
  if cs ≠ [] ∧ cs.all Char.isDigit ∧ digitsValue cs < wordLimit then some (digitsValue cs) else none

/-- A text of digits is read exactly when a machine word holds its value. -/
theorem word?_eq_some_iff {cs : List Char} {n : Nat} : word? cs = some n ↔
    cs ≠ [] ∧ (∀ c ∈ cs, c.isDigit = true) ∧ digitsValue cs = n ∧ n < wordLimit := by
  rw [word?, Option.ite_none_right_eq_some, Option.some_inj, List.all_eq_true]
  constructor
  · rintro ⟨⟨hne, hdigits, hword⟩, rfl⟩
    exact ⟨hne, hdigits, rfl, hword⟩
  · rintro ⟨hne, hdigits, rfl, hword⟩
    exact ⟨⟨hne, hdigits, hword⟩, rfl⟩

/-- The decimal text of a number that a machine word holds is read back. -/
theorem word?_natText {n : Nat} (h : n < wordLimit) : word? (natText n).toList = some n := by
  have hall : (Nat.toDigits 10 n).all Char.isDigit = true :=
    List.all_eq_true.2 fun _ hc => Nat.isDigit_of_mem_toDigits (by decide) (by decide) hc
  simp [word?, natText, hall, h]

/-- A decimal: its digits read as one number, and the power of ten of the last of them. -/
def ofDecimal (coefficient : Nat) (exponent : Int) : Float :=
  Float.ofScientific coefficient (exponent < 0) exponent.natAbs

/-- The sign at the front of a text, and the rest. -/
def cutSign : List Char → List Char × List Char
  | '+' :: cs => (['+'], cs)
  | '-' :: cs => (['-'], cs)
  | cs => ([], cs)

/-- Cutting off a sign loses nothing. -/
theorem cutSign_append (cs : List Char) : (cutSign cs).1 ++ (cutSign cs).2 = cs := by
  unfold cutSign
  split <;> rfl

/-- Whether a character opens an exponent. -/
def isExponentMark (c : Char) : Bool := c == 'e' || c == 'E'

/-- The power of ten that an exponent behind the digits asks for. -/
def exponent? : List Char → Option Int
  | [] => some 0
  | mark :: cs =>
    let (sign, digits) := cutSign cs
    if isExponentMark mark ∧ digits ≠ [] ∧ digits.all Char.isDigit then
      some (if sign = ['-'] then -(digitsValue digits : Int) else digitsValue digits)
    else none

/-- Read a numeral. -/
def numeral? (cs : List Char) : Option Float :=
  let (whole, afterWhole) := cutDigits cs
  let (decimals, afterDecimals) :=
    match afterWhole with
    | '.' :: rest => cutDigits rest
    | rest => ([], rest)
  if whole ++ decimals = [] then none
  else (exponent? afterDecimals).map fun exponent =>
    ofDecimal (digitsValue (whole ++ decimals)) (exponent - decimals.length)

end InputDeck.Number
