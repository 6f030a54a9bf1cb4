import InputDeck.Proofs.Text.Located
import InputDeck.Proofs.Text.Scanner

/-!
# Sides with their brackets in pairs

A side of a slice line is read bracket by bracket, each time from the place behind the last one as
if the side started there. Nothing is open at such a place, so when the brackets of the whole side
come in pairs, those of what is left do too: each bracket that is found has its partner, and the
side is refused for nothing but a bound.
-/

namespace InputDeck

open InputDeck.Text

/--
The scanner counts open brackets exactly in the regions between brackets, and never comes to a
fault. It finds the brackets of a text in pairs when the text is balanced outside quotes; it finds
for a bracket the one behind a text with its quotes in pairs that is balanced outside them; and a
side of a slice line whose brackets come in pairs is not refused for its brackets.
-/
theorem Scan.brackets_are_matched (cs : List Char) :
    (∃ scanner, Scanner.readAll {} cs = some scanner ∧
      scanner.region = (State.after {} cs).region ∧ scanner.depth = (State.after {} cs).depth ∧
      (0 < scanner.depth ↔
        scanner.region = .inBracket ∨ scanner.region = .inBracketQuotes)) ∧
    (Scanner.balanced {} cs = some (bracketsBalanced cs) ∧
      (bracketsBalanced cs = true ↔ IsBalanced (outside false cs))) ∧
    (∀ front rest, cs = front ++ '[' :: rest →
      Scanner.matchingBracket cs (byteLength front) =
        some (matchingBracket cs (byteLength front)) ∧
      ∀ offset, matchingBracket cs (byteLength front) = some offset ↔
        ∃ inner after, rest = inner ++ ']' :: after ∧ QuotesPaired inner ∧
          IsBalanced (outside false inner) ∧ offset = byteLength (front ++ '[' :: inner)) ∧
    (bracketsBalanced cs = true → ∀ location place fragment,
      Slice.Pattern.parse location cs ≠ .error (.malformedVector place fragment)) := by
  refine ⟨⟨_, State.readAll_scanner {} cs, rfl, rfl, State.depth_pos_iff⟩,
    ⟨State.balanced_scanner {} cs, bracketsBalanced_iff⟩, ?_, ?_⟩
  · rintro front rest rfl
    exact ⟨Scanner.matchingBracket_eq _ _, fun offset => matchingBracket_eq_some_iff⟩
  · intro hcs location place fragment herror
    have hfails : (Slice.Pattern.parse location cs).FailsBy (· ≠ .malformedVector place fragment) :=
      Slice.Pattern.failsBy_parseFrom (fun _ hbound => by cases hbound) (absurd hcs)
    exact hfails _ herror rfl

/-- A quoted bracket does not close the one in front of it, and keeps no slice from being read. -/
theorem Scan.brackets_are_matched_quoted :
    let side := ['a', '[', '"', ']', '"', ']', '[', '1', ':', '2', ']']
    bracketsBalanced side = true ∧ matchingBracket side 1 = some 5 ∧
      ∀ location place fragment,
        Slice.Pattern.parse location side ≠ .error (.malformedVector place fragment) := by
  intro side
  obtain ⟨-, ⟨-, hbalanced⟩, hmatching, hparse⟩ := brackets_are_matched side
  have hquoted : IsBalanced (outside false ['"', ']', '"']) := .nil
  have hbounds : IsBalanced ['1', ':', '2'] :=
    .other (by decide) (by decide) <| .other (by decide) (by decide) <|
      .other (by decide) (by decide) .nil
  have hslice : IsBalanced ('[' :: ['1', ':', '2'] ++ [']']) := .bracket hbounds .nil
  have hside : IsBalanced (outside false side) :=
    .other (by decide) (by decide) (.bracket hquoted hslice)
  refine ⟨hbalanced.2 hside, ?_, hparse (hbalanced.2 hside)⟩
  refine ((hmatching ['a'] ['"', ']', '"', ']', '[', '1', ':', '2', ']'] rfl).2 5).2 ?_
  exact ⟨['"', ']', '"'], ['[', '1', ':', '2', ']'], rfl, by decide, hquoted, by decide⟩

end InputDeck
