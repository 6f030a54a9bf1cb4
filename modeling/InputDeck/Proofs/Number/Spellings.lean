import InputDeck.Proofs.Number.Numerals

/-!
# Spellings of numbers

A number is spelled by digits, perhaps with decimals and perhaps with an exponent behind them. What
the spelling stands for is told from its digits and its exponent. In front of what does not go on
with it, the spelling is cut off in whole, and it is read as the number that it stands for.
-/

namespace InputDeck.Number

/-- A text of digits. -/
structure Digits where
  /-- The digits, the leading one first. -/
  chars : List Char
  /-- There is at least one. -/
  ne_nil : chars ≠ []
  /-- No other characters are among them. -/
  isDigit : ∀ c ∈ chars, c.isDigit = true

/-- The digits of a number. -/
def Digits.ofNat (n : Nat) : Digits where
  chars := Nat.toDigits 10 n
  ne_nil := Nat.toDigits_ne_nil
  isDigit _ := isDigit_of_mem_toDigits

/-- The signs that exponents can have. -/
inductive Sign where
  | plus
  | minus
  deriving DecidableEq, Repr

/-- How a sign is written. -/
def Sign.char : Sign → Char
  | plus => '+'
  | minus => '-'

/-- An exponent: its mark, perhaps a sign, and digits. -/
structure Exponent where
  /-- The letter in front. -/
  mark : Char
  /-- It opens an exponent. -/
  isMark : isExponentMark mark = true
  /-- The sign, if there is one. -/
  sign : Option Sign
  /-- The digits. -/
  digits : Digits

/-- A spelling of a number. -/
structure Spelling where
  /-- The digits in front of the point. -/
  whole : Digits
  /-- The digits behind the point, if there is one. -/
  decimals : Option Digits
  /-- The exponent, if there is one. -/
  exponent : Option Exponent

namespace Digits

variable {digits : Digits} {rest : List Char}

/-- A text that begins with digits begins with a digit. -/
theorem isDigit_head? : ∀ c ∈ (digits.chars ++ rest).head?, c.isDigit = true := by
  obtain ⟨c, cs, hchars⟩ := List.exists_cons_of_ne_nil digits.ne_nil
  rintro d hd
  rw [hchars] at hd
  cases hd
  exact digits.isDigit c (by simp [hchars])

/-- Digits are cut off in front of anything else. -/
theorem cutDigits_append (h : ∀ c ∈ rest.head?, c.isDigit = false) :
    cutDigits (digits.chars ++ rest) = (digits.chars, rest) :=
  cutDigits_append_of_not_isDigit digits.isDigit h

end Digits

namespace Exponent

/-- The sign of an exponent as it is written. -/
def signText (exponent : Exponent) : List Char := exponent.sign.toList.map Sign.char

/-- An exponent as it is written. -/
def text (exponent : Exponent) : List Char :=
  exponent.mark :: (exponent.signText ++ exponent.digits.chars)

/-- The power of ten that an exponent asks for. -/
def value (exponent : Exponent) : Int :=
  if exponent.sign = some .minus then -(digitsValue exponent.digits.chars : Int)
  else digitsValue exponent.digits.chars

variable {exponent : Exponent} {rest : List Char}

/-- The sign is cut off in front of the digits. -/
theorem cutSign_append : cutSign (exponent.signText ++ (exponent.digits.chars ++ rest)) =
    (exponent.signText, exponent.digits.chars ++ rest) := by
  unfold signText
  cases exponent.sign with
  | none => exact Token.cutSign_of_isDigit Digits.isDigit_head?
  | some sign => cases sign <;> rfl

/-- The sign of an exponent is written with a minus exactly when there is one. -/
theorem signText_eq_minus_iff : exponent.signText = ['-'] ↔ exponent.sign = some .minus := by
  unfold signText
  cases exponent.sign with
  | none => simp
  | some sign => cases sign <;> simp [Sign.char]

/-- An exponent is cut off in front of anything but digits. -/
theorem cutExponent_append (h : ∀ c ∈ rest.head?, c.isDigit = false) :
    Token.cutExponent (exponent.text ++ rest) = (exponent.text, rest) := by
  have hdigits : cutDigits (exponent.digits.chars ++ rest) = (exponent.digits.chars, rest) :=
    Digits.cutDigits_append h
  simp [text, Token.cutExponent, cutSign_append, hdigits, exponent.isMark, exponent.digits.ne_nil]

/-- An exponent is read as the power of ten that it asks for. -/
theorem exponent?_text : exponent? exponent.text = some exponent.value := by
  have hsign : cutSign (exponent.signText ++ exponent.digits.chars) =
      (exponent.signText, exponent.digits.chars) := by
    have happend : cutSign (exponent.signText ++ (exponent.digits.chars ++ [])) = _ :=
      cutSign_append
    simpa using happend
  have hall : exponent.digits.chars.all Char.isDigit = true :=
    List.all_eq_true.2 exponent.digits.isDigit
  rw [text, exponent?]
  simp only [hsign]
  rw [if_pos ⟨exponent.isMark, exponent.digits.ne_nil, hall⟩, value]
  simp only [signText_eq_minus_iff]

end Exponent

namespace Spelling

/-- The decimals of a spelling. -/
def decimalChars (spelling : Spelling) : List Char := spelling.decimals.elim [] Digits.chars

/-- The point and the decimals, as they are written. -/
def decimalText (spelling : Spelling) : List Char :=
  spelling.decimals.elim [] fun digits => '.' :: digits.chars

/-- The exponent as it is written. -/
def exponentText (spelling : Spelling) : List Char := spelling.exponent.elim [] Exponent.text

/-- A spelling as it is written. -/
def text (spelling : Spelling) : List Char :=
  spelling.whole.chars ++ spelling.decimalText ++ spelling.exponentText

/-- The power of ten that the exponent asks for. -/
def power (spelling : Spelling) : Int := spelling.exponent.elim 0 Exponent.value

/-- The number that a spelling stands for: all digits as one number, with the power of ten that the
last of them has. -/
def value (spelling : Spelling) : Float :=
  ofDecimal (digitsValue (spelling.whole.chars ++ spelling.decimalChars))
    (spelling.power - spelling.decimalChars.length)

variable {spelling : Spelling} {rest : List Char}

/-- The exponent is cut off in front of what does not go on with the number. -/
private theorem cutExponent_exponentText (h : Token.EndsNumeral rest) :
    Token.cutExponent (spelling.exponentText ++ rest) = (spelling.exponentText, rest) := by
  unfold exponentText
  cases spelling.exponent with
  | none => exact Token.cutExponent_of_endsNumeral h
  | some exponent => exact Exponent.cutExponent_append fun c hc => (h c hc).1

/-- In front of the exponent, or of what does not go on with the number, neither digits nor a point
are left. -/
private theorem head?_exponentText (h : Token.EndsNumeral rest) :
    ∀ c ∈ (spelling.exponentText ++ rest).head?, c.isDigit = false ∧ c ≠ '.' := by
  unfold exponentText
  cases spelling.exponent with
  | none => exact fun c hc => ⟨(h c hc).1, (h c hc).2.1⟩
  | some exponent =>
    rintro c ⟨⟩
    have hmark := exponent.isMark
    simp only [isExponentMark, Bool.or_eq_true, beq_iff_eq] at hmark
    rcases hmark with hmark | hmark <;> rw [hmark] <;> decide

/-- The decimals are cut off in front of the exponent. -/
private theorem cutDecimals_decimalText (h : Token.EndsNumeral rest) :
    Token.cutDecimals (spelling.decimalText ++ (spelling.exponentText ++ rest)) =
      (spelling.decimalText, spelling.exponentText ++ rest) := by
  have hhead := @head?_exponentText spelling rest h
  unfold decimalText
  cases spelling.decimals with
  | none => exact Token.cutDecimals_of_ne fun hdot => (hhead '.' hdot).2 rfl
  | some digits =>
    have hdigits : cutDigits (digits.chars ++ (spelling.exponentText ++ rest)) = _ :=
      Digits.cutDigits_append fun c hc => (hhead c hc).1
    simp [Token.cutDecimals, hdigits]

/-- The digits in front of the point are cut off. -/
private theorem cutDigits_whole (h : Token.EndsNumeral rest) :
    cutDigits (spelling.whole.chars ++ (spelling.decimalText ++ (spelling.exponentText ++ rest))) =
      (spelling.whole.chars, spelling.decimalText ++ (spelling.exponentText ++ rest)) := by
  apply Digits.cutDigits_append
  unfold decimalText
  cases spelling.decimals with
  | none => exact fun c hc => (head?_exponentText h c hc).1
  | some digits =>
    rintro c ⟨⟩
    decide

/-- A spelling is cut off in front of what does not go on with it. -/
theorem cutNumeral_append (h : Token.EndsNumeral rest) :
    Token.cutNumeral (spelling.text ++ rest) = (spelling.text, rest) := by
  simp only [text, List.append_assoc, Token.cutNumeral, cutDigits_whole h,
    cutDecimals_decimalText h, cutExponent_exponentText h]

/-- A spelling is read as the number that it stands for. -/
theorem numeral?_text (spelling : Spelling) : numeral? spelling.text = some spelling.value := by
  have hends := Token.endsNumeral_nil
  have hwhole := @cutDigits_whole spelling [] hends
  have hdecimals := @cutDecimals_decimalText spelling [] hends
  rw [List.append_nil] at hwhole hdecimals
  have htail : spelling.decimalText.tail = spelling.decimalChars := by
    unfold decimalText decimalChars
    cases spelling.decimals <;> rfl
  have hexponent : exponent? spelling.exponentText = some spelling.power := by
    unfold exponentText power
    cases spelling.exponent with
    | none => rfl
    | some exponent => exact Exponent.exponent?_text
  have hne : spelling.whole.chars ++ spelling.decimalChars ≠ [] := by
    simp [spelling.whole.ne_nil]
  rw [text, List.append_assoc, Token.numeral?_eq, hwhole]
  simp only [hdecimals, htail]
  rw [if_neg hne, hexponent]
  rfl

/-- A spelling begins with a digit. -/
theorem head?_text (spelling : Spelling) : spelling.text.head?.any Char.isDigit = true := by
  have hdigit : ∀ c ∈ spelling.text.head?, c.isDigit = true := by
    rw [text, List.append_assoc]
    exact Digits.isDigit_head?
  obtain ⟨c, cs, hchars⟩ := List.exists_cons_of_ne_nil spelling.whole.ne_nil
  have htext : spelling.text.head? = some c := by simp [text, hchars]
  rw [htext] at hdigit ⊢
  exact hdigit c rfl

end Spelling

end InputDeck.Number
