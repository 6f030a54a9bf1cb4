import InputDeck.Expr.Error
import InputDeck.Number.Numeral
import InputDeck.Text.Blank
import InputDeck.Text.Cut

/-!
# Lexing

A statement is cut into tokens from the left; blanks separate tokens and are dropped. Each token is
the longest of its class. A dot followed by a digit begins a number, except behind a name or an
index, where it separates the segments of a name. Texts stand between quotes and have no escapes.
-/

namespace InputDeck.Token

open InputDeck.Text InputDeck.Number

/-- A name segment begins with an ASCII letter or an underscore. -/
def isNameStart (c : Char) : Bool := c.isAlpha || c == '_'

/-- A name segment goes on with ASCII letters, digits and underscores. -/
def isNamePart (c : Char) : Bool := c.isAlphanum || c == '_'

/-- The exponent at the front of a text, if a digit ends it, and the rest. -/
def cutExponent : List Char → List Char × List Char
  | [] => ([], [])
  | mark :: cs =>
    let (sign, unsigned) := cutSign cs
    let (digits, rest) := cutDigits unsigned
    if isExponentMark mark ∧ digits ≠ [] then (mark :: sign ++ digits, rest) else ([], mark :: cs)

/-- The point and the decimals at the front of a text, and the rest. -/
def cutDecimals : List Char → List Char × List Char
  | '.' :: cs => ('.' :: (cutDigits cs).1, (cutDigits cs).2)
  | cs => ([], cs)

/-- The longest numeral at the front of a text, and the rest. -/
def cutNumeral (cs : List Char) : List Char × List Char :=
  let (whole, afterWhole) := cutDigits cs
  let (decimals, afterDecimals) := cutDecimals afterWhole
  let (exponent, rest) := cutExponent afterDecimals
  (whole ++ decimals ++ exponent, rest)

/-- The symbol that two characters spell. -/
def double? (c d : Char) : Option Symbol :=
  match c, d with
  | '*', '*' => some .caret
  | '<', '=' => some .lessEqual
  | '>', '=' => some .greaterEqual
  | '=', '=' => some .equal
  | '!', '=' => some .notEqual
  | '&', '&' => some .both
  | '|', '|' => some .either
  | _, _ => none

/-- The symbol that one character spells. -/
def single? (c : Char) : Option Symbol :=
  match c with
  | '(' => some .leftParen
  | ')' => some .rightParen
  | '[' => some .leftBracket
  | ']' => some .rightBracket
  | ',' => some .comma
  | '.' => some .dot
  | '=' => some .assign
  | '+' => some .plus
  | '-' => some .minus
  | '*' => some .star
  | '/' => some .slash
  | '%' => some .percent
  | '^' => some .caret
  | '<' => some .less
  | '>' => some .greater
  | '!' => some .bang
  | _ => none

/-- The longest symbol that begins with `c`, and the rest. -/
def cutSymbol (c : Char) (cs : List Char) : Option (Symbol × List Char) :=
  match cs with
  | d :: ds =>
    match double? c d with
    | some s => some (s, ds)
    | none => (single? c).map (·, cs)
  | [] => (single? c).map (·, [])

/-- Whether a number begins with `c` and the text behind it. -/
def startsNumber (afterName : Bool) (c : Char) (cs : List Char) : Bool :=
  c.isDigit || (c == '.' && !afterName && cs.head?.any Char.isDigit)

/--
The token that begins with `c`, and the rest. Columns count from one, so in a statement of `total`
characters the column of `c` is what `total` exceeds the characters behind it by.
-/
def next (total : Nat) (afterName : Bool) (c : Char) (cs : List Char) :
    Except EvalError (Token × List Char) :=
  if startsNumber afterName c cs then
    let (text, rest) := cutNumeral (c :: cs)
    match numeral? text with
    | some x => .ok (number x, rest)
    | none => .error (.invalidNumber (String.ofList text))
  else if isNameStart c then
    .ok (name (String.ofList (c :: cs.takeWhile isNamePart)), cs.dropWhile isNamePart)
  else if c = '"' then
    match cutFirst '"' cs with
    | some (text, rest) => .ok (string (String.ofList text), rest)
    | none => .error .unterminatedString
  else
    match cutSymbol c cs with
    | some (s, rest) => .ok (symbol s, rest)
    | none => .error (.unexpectedChar c (total - cs.length))

/-- Cutting off an exponent loses nothing. -/
theorem cutExponent_append (cs : List Char) : (cutExponent cs).1 ++ (cutExponent cs).2 = cs := by
  cases cs with
  | nil => rfl
  | cons mark cs =>
    simp only [cutExponent]
    split
    · simp [cutDigits_append, cutSign_append]
    · simp

/-- Cutting off decimals loses nothing. -/
theorem cutDecimals_append (cs : List Char) : (cutDecimals cs).1 ++ (cutDecimals cs).2 = cs := by
  unfold cutDecimals
  split
  · simp [cutDigits_append]
  · simp

/-- Cutting off a numeral loses nothing. -/
theorem cutNumeral_append (cs : List Char) : (cutNumeral cs).1 ++ (cutNumeral cs).2 = cs := by
  simp only [cutNumeral, List.append_assoc]
  rw [cutExponent_append, cutDecimals_append, cutDigits_append]

/-- A numeral takes at least the character that a number begins with. -/
theorem length_cutNumeral {afterName : Bool} {c : Char} {cs : List Char}
    (h : startsNumber afterName c cs = true) : (cutNumeral (c :: cs)).2.length ≤ cs.length := by
  have htotal := congrArg List.length (cutNumeral_append (c :: cs))
  have hfront : (cutNumeral (c :: cs)).1 ≠ [] := by
    simp only [startsNumber, Bool.or_eq_true, Bool.and_eq_true, beq_iff_eq] at h
    rcases h with h | ⟨⟨rfl, -⟩, -⟩
    · simp [cutNumeral, cutDigits, h]
    · simp [cutNumeral, cutDigits, cutDecimals]
  have hpos := List.length_pos_iff.2 hfront
  simp only [List.length_append, List.length_cons] at htotal
  omega

/-- A symbol takes at least its first character. -/
theorem length_cutSymbol {c : Char} {cs rest : List Char} {s : Symbol}
    (h : cutSymbol c cs = some (s, rest)) : rest.length ≤ cs.length := by
  unfold cutSymbol at h
  split at h
  · split at h
    · obtain ⟨-, rfl⟩ : _ ∧ _ = rest := by simpa using h
      simp
    · obtain ⟨t, -, ht⟩ := Option.map_eq_some_iff.1 h
      obtain ⟨-, rfl⟩ : _ ∧ _ = rest := by simpa using ht
      exact Nat.le_refl _
  · obtain ⟨t, -, ht⟩ := Option.map_eq_some_iff.1 h
    simp [← (Prod.mk.inj ht).2]

/-- A token takes at least its first character. -/
theorem length_next {total : Nat} {afterName : Bool} {c : Char} {cs rest : List Char} {t : Token}
    (h : next total afterName c cs = .ok (t, rest)) : rest.length ≤ cs.length := by
  unfold next at h
  split at h
  · next hn =>
    have hlen := length_cutNumeral hn
    simp only at h
    split at h
    · obtain ⟨-, rfl⟩ : _ ∧ _ = rest := by simpa using h
      exact hlen
    · simp at h
  · split at h
    · obtain ⟨-, rfl⟩ : _ ∧ _ = rest := by simpa using h
      exact (List.dropWhile_sublist _).length_le
    · split at h
      · split at h
        · next hcut =>
          obtain ⟨-, rfl⟩ : _ ∧ _ = rest := by simpa using h
          rw [(cutFirst_eq_some hcut).1]
          simp
          omega
        · simp at h
      · split at h
        · next hcut =>
          obtain ⟨-, rfl⟩ : _ ∧ _ = rest := by simpa using h
          exact length_cutSymbol hcut
        · simp at h

/-- The tokens of what is left of a statement of `total` characters. -/
def tokensFrom (total : Nat) (afterName : Bool) (cs : List Char) : Except EvalError (List Token) :=
  match cs with
  | [] => .ok []
  | c :: cs =>
    if isBlank c then tokensFrom total afterName cs
    else
      match _ : next total afterName c cs with
      | .error e => .error e
      | .ok (t, rest) => (tokensFrom total t.endsName rest).map (t :: ·)
termination_by cs.length
decreasing_by
  · simp
  · exact Nat.lt_succ_of_le (length_next ‹_›)

/-- The tokens of a statement. -/
def ofText (text : String) : Except EvalError (List Token) :=
  tokensFrom text.length false text.toList

end InputDeck.Token
