/-!
# Raw lines

A text is a sequence of lines, each ended by a line feed. A carriage return directly before the
line feed belongs to the end of the line; any other carriage return is a character of the line.
A last line without an end counts when it holds a character.
-/

namespace InputDeck.Text

/-- Put a character in front of the first line, which begins here when there is none. -/
def consLine (c : Char) : List (List Char) → List (List Char)
  | [] => [[c]]
  | line :: rest => (c :: line) :: rest

/-- The lines of a text, without their ends. -/
def lines : List Char → List (List Char)
  | [] => []
  | '\n' :: cs => [] :: lines cs
  | '\r' :: '\n' :: cs => [] :: lines cs
  | c :: cs => consLine c (lines cs)

@[simp] theorem lines_nil : lines [] = [] := rfl

@[simp] theorem lines_newline (cs : List Char) : lines ('\n' :: cs) = [] :: lines cs := rfl

/-- A character that is no part of a line end opens a line or stands at its front. -/
theorem lines_cons {c : Char} (cs : List Char) (hn : c ≠ '\n') (hr : c ≠ '\r') :
    lines (c :: cs) = consLine c (lines cs) := by
  rw [lines]
  · exact hn
  · intro rest h
    exact absurd h hr

/-- A text without a line end is at most one line. -/
theorem lines_eq_singleton {c : Char} {cs : List Char} (hn : '\n' ∉ c :: cs) :
    lines (c :: cs) = [c :: cs] := by
  induction cs generalizing c with
  | nil =>
    have hc : c ≠ '\n' := by rintro rfl; simp at hn
    rw [lines]
    · rfl
    · exact hc
    · rintro rest - h
      simp at h
  | cons d ds ih =>
    have hc : c ≠ '\n' := by rintro rfl; simp at hn
    have hd : d ≠ '\n' := by rintro rfl; simp at hn
    rw [lines, ih (by simp_all), consLine]
    · exact hc
    · rintro rest - h
      exact hd (by simpa using congrArg List.head? h)

/-- A line feed ends the line before it. -/
theorem lines_append_newline {cs : List Char} (rest : List Char) (hn : '\n' ∉ cs) (hr : '\r' ∉ cs) :
    lines (cs ++ '\n' :: rest) = cs :: lines rest := by
  induction cs with
  | nil => simp
  | cons c cs ih =>
    rw [List.cons_append, lines_cons, ih (by simp_all) (by simp_all), consLine]
    · rintro rfl; simp at hn
    · rintro rfl; simp at hr

end InputDeck.Text
