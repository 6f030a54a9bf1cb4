import InputDeck.Number.Layout
import InputDeck.Suit.Path

/-!
# Locations

A failure is located by the line of the deck it was found in and the suit that was current there.
-/

namespace InputDeck

/-- A line of a deck, and the suit that is current there. -/
structure Location where
  /-- The number of the line, counted from one. -/
  line : Nat
  /-- The current suit. -/
  suit : SuitPath
  deriving DecidableEq, Repr

/-- How messages show a location. -/
def Location.phrase (location : Location) : String :=
  "line " ++ Number.natText location.line ++ " in suit '" ++ location.suit.text ++ "'"

end InputDeck
