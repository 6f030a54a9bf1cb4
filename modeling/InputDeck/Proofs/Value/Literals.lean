import InputDeck.Proofs.Text.WrittenCards
import InputDeck.Proofs.Value.Reading

/-!
# Literals

A literal spells a value by itself: a numeral with or without a minus sign, a truth value, or a text
between quotes. It is read as its value in any state of the evaluator, and outside its quotes it has
no character that means something for lines, lists or slices.
-/

namespace InputDeck

open InputDeck.Text InputDeck.Number

/-- A text that spells a value by itself. -/
inductive IsLiteral : String → Value → Prop
  /-- A numeral spells its number. -/
  | number {text : String} {x : Float} (h : numeral? text.toList = some x) :
      IsLiteral text (.number x)
  /-- Behind a minus sign, it spells the opposite number. -/
  | negative {text : String} {x : Float} (h : numeral? text.toList = some x) :
      IsLiteral ("-" ++ text) (.number (-x))
  /-- Truth values have names. -/
  | trueName : IsLiteral "true" (.boolean true)
  | falseName : IsLiteral "false" (.boolean false)
  /-- A text stands between quotes. It has no quotes, and no blanks but spaces. -/
  | string {s : String} (hplain : IsPlain s.toList) (hquote : '"' ∉ s.toList) :
      IsLiteral ("\"" ++ s ++ "\"") (.string s)

namespace IsLiteral

variable {text : String} {v : Value}

/-- A literal is read as the value that it spells. -/
theorem reads (h : IsLiteral text v) : Reads text.toList v := by
  cases h with
  | number h => exact reads_numeral h false
  | @negative text x h =>
    rw [String.toList_append]
    exact reads_numeral h true
  | trueName => exact reads_boolean none true
  | falseName => exact reads_boolean none false
  | @string s hplain hquote =>
    have hquoted : ("\"" ++ s ++ "\"").toList = '"' :: s.toList ++ ['"'] := by simp
    rw [hquoted]
    exact reads_string hquote

/-- All characters of a numeral are bare. -/
theorem isBareChar_of_numeral? {cs : List Char} {x : Float} (h : numeral? cs = some x) :
    ∀ c ∈ cs, Value.isBareChar c = true := by
  intro c hc
  have hfront : (Token.cutNumeral cs).1 = cs := by
    have happend := Token.cutNumeral_append cs
    rwa [Token.snd_cutNumeral_of_numeral? h, List.append_nil] at happend
  rw [← hfront] at hc
  simp [Value.isBareChar, Token.isNumeralChar_of_mem_cutNumeral hc]

/-- A literal can be written as a value. -/
theorem isWritten (h : IsLiteral text v) : Value.IsWritten text.toList := by
  cases h with
  | number h =>
    refine .of_isBareChar ?_ (isBareChar_of_numeral? h)
    intro hnil
    rw [hnil] at h
    cases h
  | @negative text x h =>
    rw [String.toList_append]
    refine .of_isBareChar (List.cons_ne_nil _ _) fun c hc => ?_
    rcases List.mem_cons.1 hc with rfl | hc
    · decide
    · exact isBareChar_of_numeral? h c hc
  | trueName => exact Value.isWritten_written (v := .boolean true) (by rintro s ⟨⟩) none
  | falseName => exact Value.isWritten_written (v := .boolean false) (by rintro s ⟨⟩) none
  | @string s hplain hquote =>
    have hquoted : ("\"" ++ s ++ "\"").toList = '"' :: s.toList ++ ['"'] := by simp
    rw [hquoted]
    exact .of_quoted hplain hquote

end IsLiteral

end InputDeck
