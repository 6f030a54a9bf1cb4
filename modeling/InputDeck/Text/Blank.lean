import InputDeck.Text.CodePoints

/-!
# Blank characters

The characters that stand for white space in a deck: every character with the Unicode property
`White_Space`. The zero-width characters `U+200B` and `U+FEFF` do not have that property.
-/

namespace InputDeck.Text

/-- The closed ranges of code points with the Unicode property `White_Space`. -/
def blankRanges : List (Nat × Nat) :=
  [(0x0009, 0x000D), (0x0020, 0x0020), (0x0085, 0x0085), (0x00A0, 0x00A0), (0x1680, 0x1680),
    (0x2000, 0x200A), (0x2028, 0x2029), (0x202F, 0x202F), (0x205F, 0x205F), (0x3000, 0x3000)]

/-- A blank is a character with the Unicode property `White_Space`. -/
def isBlank (c : Char) : Bool := inRanges blankRanges c

@[simp] theorem isBlank_space : isBlank ' ' = true := by decide

@[simp] theorem isBlank_newline : isBlank '\n' = true := by decide

/-- The ASCII class of white space is a part of the blanks. -/
theorem isBlank_of_isWhitespace {c : Char} (h : c.isWhitespace = true) : isBlank c = true := by
  simp only [Char.isWhitespace, Bool.or_eq_true, decide_eq_true_eq] at h
  rcases h with ((h | h) | h) | h <;> subst h <;> decide

/-- A text without its blanks. -/
def withoutBlanks (cs : List Char) : List Char := cs.filter fun c => !isBlank c

@[simp] theorem withoutBlanks_nil : withoutBlanks [] = [] := rfl

@[simp] theorem withoutBlanks_append (cs ds : List Char) :
    withoutBlanks (cs ++ ds) = withoutBlanks cs ++ withoutBlanks ds :=
  List.filter_append ..

/-- No blank is left in a text without its blanks. -/
theorem isBlank_of_mem_withoutBlanks {c : Char} {cs : List Char} (h : c ∈ withoutBlanks cs) :
    isBlank c = false := by
  simpa using (List.mem_filter.1 h).2

/-- Dropping the blanks twice is dropping them once. -/
@[simp] theorem withoutBlanks_withoutBlanks (cs : List Char) :
    withoutBlanks (withoutBlanks cs) = withoutBlanks cs := by
  simp [withoutBlanks]

end InputDeck.Text
